import CommonDataLayer.Foundations.Program
import CommonDataLayer.QueryService.Psql
import CommonDataLayer.VictoriaMetrics.Series

/-! # The query service on VictoriaMetrics

`queryByRange` and `queryBySchema` send a selector to VictoriaMetrics and return the text of its
response.
-/
namespace CommonDataLayer.QueryServiceTs
open Interaction VictoriaMetrics
open QueryService (Status Code)
set_option autoImplicit false

inductive Method where
  | get
  | post
  deriving DecidableEq, Repr

inductive Call where
  | connect
  | send (method : Method) (url : String) (query : List (String × String))

structure Response where
  text : Except String String

abbrev Answer : Call → Type
  | .connect => Except String Unit
  | .send _ _ _ => Except String Response

abbrev Task (α : Type) : Type := ExceptT Status (Program Answer) α

def tryResult {α : Type} (text : String) (r : Except String α) : Task α :=
  ExceptT.mk (.ret (r.mapError fun err => ⟨.internal, text ++ ": " ++ err⟩))

def tryCall {α : Type} (text : String) (call : Program Answer (Except String α)) : Task α :=
  ExceptT.mk (call.bind fun r => (tryResult text r).run)

def queryDb (addr method endpoint : String) (query : List (String × String)) : Task String := do
  tryCall "Unable to connect to database" (Program.perform Call.connect)
  let url := addr ++ endpoint
  let method ← match method with
    | "POST" => pure Method.post
    | "GET" => pure Method.get
    | m => throw ⟨.internal,
        s!"Method \"{m}\" not matched. Only POST and GET are currently supported"⟩
  let response ← tryCall "Error requesting value from VictoriaMetrics"
    (Program.perform (Call.send method url query))
  tryResult "Failed to deserialize response from VictoriaMetrics" response.text

structure Range where
  schemaId : String
  objectId : String
  start : String
  stop : String
  step : String

def rangeSelector (request : Range) : Selector := .label "object_id" request.objectId

def schemaSelector (schemaId : String) : Selector := .names schemaId

/-- A parameter that is left out when it is empty. -/
def parameter (name value : String) : List (String × String) :=
  if value.isEmpty then [] else [(name, value)]

def queryByRange (addr : String) (request : Range) : Task String :=
  queryDb addr "GET" "/query_range" (("query", (rangeSelector request).toText) ::
    parameter "start" request.start ++ parameter "end" request.stop ++ parameter "step" request.step)

def queryBySchema (addr schemaId : String) : Task String :=
  queryDb addr "GET" "/query" [("query", (schemaSelector schemaId).toText)]

end CommonDataLayer.QueryServiceTs
