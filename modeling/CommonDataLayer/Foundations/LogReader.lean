import Mathlib.Logic.Function.Basic
import Mathlib.Order.Lattice
import CommonDataLayer.Foundations.TaskPool

/-! # Reading a partitioned log with processes that may end at any moment

The partitions of a log only grow, with increasing offsets. One process at a time reads them for a
group, each partition in order, and stores how far it has come. What is stored is committed from
time to time; the next process starts at the committed offsets.

* `LogReader`: a consumer whose world says what it has stored.
* `Group.Step`: one step of a group, the end of its process included.
* `Guarantees`: what a single process has to keep.
* `Group.Safe.step`: then every message up to a committed offset has been handled by some process.
-/
namespace Interaction
set_option autoImplicit false

/-! ## A stream that grows -/

section Stream
variable {M Q : Type} {A : Q → Type} {C : Consumer M A}

/-- One more message is there to be taken. -/
def Pool.feed {W : Type} (s : Pool M A W) (m : M) : Pool M A W := { s with stream := s.stream ++ [m] }

theorem Consumer.Step.feed {s s' : Pool M A C.World} (h : C.Step s s') (m : M) :
    C.Step (s.feed m) (s'.feed m) := by
  cases h with
  | take running free next taken =>
    exact .take (s := s.feed m) running free (by rw [Pool.feed, next]; rfl) taken
  | takeAborts running free next fatal =>
    exact .takeAborts (s := s.feed m) running free (by rw [Pool.feed, next]; rfl) fatal
  | fetchError running free => exact .fetchError (s := s.feed m) running free
  | spawn running waiting permit => exact .spawn (s := s.feed m) running waiting permit
  | answer running pending answered => exact .answer (s := s.feed m) running pending answered
  | finish running returned => exact .finish (s := s.feed m) running returned
  | panic running pending unwinds => exact .panic (s := s.feed m) running pending unwinds
  | abort running pending fatal => exact .abort (s := s.feed m) running pending fatal

/-- Messages that arrive later could have been there from the start. -/
theorem Consumer.Reachable.feed {messages : List M} {w : C.World} {s : Pool M A C.World}
    (h : C.Reachable messages w s) (m : M) : C.Reachable (messages ++ [m]) w (s.feed m) := by
  induction h with
  | refl => exact .refl
  | tail _ hstep ih => exact ih.tail (hstep.feed m)

namespace Pool
variable {W : Type} {s : Pool M A W}

/-- The taken messages, each with the calls of its task. -/
def handling (s : Pool M A W) : List (M × List (Event A)) := s.taken.mapIdx fun i m => (m, s.logOf i)

theorem mem_handling {m : M} {t : List (Event A)} :
    (m, t) ∈ s.handling ↔ ∃ i, s.taken[i]? = some m ∧ t = s.logOf i := by
  rw [handling, List.mem_mapIdx]
  constructor
  · rintro ⟨i, hi, heq⟩
    obtain ⟨rfl, rfl⟩ := Prod.mk.inj heq
    exact ⟨i, List.getElem?_eq_getElem hi, rfl⟩
  · rintro ⟨i, hi, rfl⟩
    obtain ⟨hlt, rfl⟩ := List.getElem?_eq_some_iff.mp hi
    exact ⟨i, hlt, rfl⟩

end Pool

/-- Nothing that was taken or answered is forgotten. -/
theorem Consumer.Step.grows {s s' : Pool M A C.World} (h : C.Step s s') :
    s.taken <+: s'.taken ∧ s.log <+: s'.log := by
  rcases h.effect with ⟨m, -, htaken, hlog, -⟩ | ⟨i, m, q, next, a, -, htaken, hlog, -⟩ |
    ⟨m, q, htaken, hlog, -⟩ | ⟨htaken, hlog, -⟩ <;> rw [htaken, hlog]
  · exact ⟨List.prefix_append _ _, List.prefix_rfl⟩
  · exact ⟨List.prefix_rfl, List.prefix_append _ _⟩
  · exact ⟨List.prefix_rfl, List.prefix_rfl⟩
  · exact ⟨List.prefix_rfl, List.prefix_rfl⟩

theorem Consumer.Step.handling {s s' : Pool M A C.World} (h : C.Step s s') {m : M}
    {t : List (Event A)} (ht : (m, t) ∈ s.handling) : ∃ more, (m, t ++ more) ∈ s'.handling := by
  obtain ⟨i, hi, rfl⟩ := Pool.mem_handling.mp ht
  obtain ⟨htaken, hlog⟩ := h.grows
  obtain ⟨more, hmore⟩ : s.logOf i <+: s'.logOf i := hlog.filterMap _
  obtain ⟨later, hlater⟩ := htaken
  obtain ⟨hlt, -⟩ := List.getElem?_eq_some_iff.mp hi
  refine ⟨more, Pool.mem_handling.mpr ⟨i, ?_, hmore⟩⟩
  rw [← hlater, List.getElem?_append_left hlt, hi]

end Stream

/-! ## A group -/

/-- A consumer of the messages of a log whose partitions are named by `K`. -/
structure LogReader (M K O : Type) {Q : Type} (A : Q → Type) extends Consumer M A where
  initial : World
  partition : M → K
  offset : M → O
  /-- The group reads this partition. -/
  reads : K → Prop
  stored : World → K → Option O

/-- The state of a group: what is committed, its process, and what the processes before did. -/
structure Group {M K O Q : Type} {A : Q → Type} (R : LogReader M K O A) where
  committed : K → Option O
  /-- What was committed when the process started. -/
  start : K → Option O
  /-- What the process has received. -/
  fetched : List M
  pool : Pool M A R.World
  /-- The messages that earlier processes took, with the calls of their tasks. -/
  past : List (M × List (Event A))

section Reading
variable {M K O Q : Type} {A : Q → Type} [DecidableEq K] [LinearOrder O]

namespace LogReader
variable (R : LogReader M K O A)

/-- The messages of a partition from an offset on, from the first one on if there is none. -/
def readFrom (mark : Option O) (log : List M) : List M := log.filter fun m => mark.all (· ≤ R.offset m)

/-- Every message lies in its partition, and the offsets of a partition increase. -/
def Ordered (logs : K → List M) : Prop :=
  ∀ k, (∀ m ∈ logs k, R.partition m = k) ∧ (logs k).Pairwise fun m n => R.offset m < R.offset n

/-- The partitions after `m` was written. -/
def append (logs : K → List M) (m : M) : K → List M :=
  Function.update logs (R.partition m) (logs (R.partition m) ++ [m])

/-- The offsets of each partition increase. -/
def Increasing (messages : List M) : Prop :=
  messages.Pairwise fun m n => R.partition m = R.partition n → R.offset m < R.offset n

/-- What a process keeps: when it has stored an offset it has taken a message that far, and
handled every message of the partition that it took, up to the offset. -/
structure Guarantees (Handled : M → List (Event A) → Prop) : Prop where
  mono : ∀ m t more, Handled m t → Handled m (t ++ more)
  stored : ∀ (messages : List M) (s : Pool M A R.World) (k : K) (o : O),
    (∀ m ∈ messages, R.reads (R.partition m)) → R.Increasing messages →
    R.Reachable messages R.initial s → R.stored s.world k = some o →
    (∀ i m, s.taken[i]? = some m → R.partition m = k → R.offset m ≤ o → Handled m (s.logOf i)) ∧
      ∃ m ∈ s.taken, R.partition m = k ∧ o ≤ R.offset m

variable {R} {logs : K → List M}

omit [DecidableEq K] in
theorem mem_readFrom {mark : Option O} {log : List M} {m : M} :
    m ∈ R.readFrom mark log ↔ m ∈ log ∧ ∀ o, mark = some o → o ≤ R.offset m := by
  cases mark <;> simp [readFrom]

theorem increasing_iff {messages : List M} : R.Increasing messages ↔
    ∀ k, (messages.filter fun m => R.partition m = k).Pairwise fun m n => R.offset m < R.offset n := by
  simp only [Increasing, List.pairwise_filter, decide_eq_true_eq]
  constructor
  · exact fun h k => h.imp fun hlt hm hn => hlt (hm.trans hn.symm)
  · intro h
    induction messages with
    | nil => exact .nil
    | cons m messages ih =>
      refine .cons (fun n hn heq => ?_) (ih fun k => (h k).of_cons)
      exact List.rel_of_pairwise_cons (h (R.partition m)) hn rfl heq.symm

/-- Written at the end. -/
theorem Ordered.append (h : R.Ordered logs) {m : M}
    (last : ∀ n ∈ logs (R.partition m), R.offset n < R.offset m) : R.Ordered (R.append logs m) := by
  intro k
  by_cases hk : k = R.partition m
  · subst hk
    rw [LogReader.append, Function.update_self]
    refine ⟨fun n hn => ?_, ?_⟩
    · rcases List.mem_append.mp hn with hn | hn
      · exact (h _).1 n hn
      · rw [List.mem_singleton.mp hn]
    · refine List.pairwise_append.mpr ⟨(h _).2, List.pairwise_singleton _ _, fun n hn n' hn' => ?_⟩
      rw [List.mem_singleton.mp hn']
      exact last n hn
  · rw [LogReader.append, Function.update_of_ne hk]
    exact h k

omit [LinearOrder O] in
theorem prefix_append (logs : K → List M) (m : M) (k : K) : logs k <+: R.append logs m k := by
  by_cases hk : k = R.partition m
  · subst hk
    rw [append, Function.update_self]
    exact List.prefix_append _ _
  · have hsame : R.append logs m k = logs k := Function.update_of_ne hk _ _
    exact hsame ▸ List.prefix_rfl

end LogReader

namespace Group
variable {R : LogReader M K O A}

def initial : Group R where
  committed _ := none
  start _ := none
  fetched := []
  pool := Pool.start [] R.initial
  past := []

/-- All the messages that were taken so far, with the calls of their tasks. -/
def handling (g : Group R) : List (M × List (Event A)) := g.past ++ g.pool.handling

/-- The process has ended and the next one starts. -/
def restart (g : Group R) : Group R where
  committed := g.committed
  start := g.committed
  fetched := []
  pool := Pool.start [] R.initial
  past := g.handling

/-- One step of a group. `answers` says which calls the surroundings may answer now. -/
inductive Step (logs : K → List M) (answers : Event A → Prop) : Group R → Group R → Prop where
  | fetch {g : Group R} {m : M} (reads : R.reads (R.partition m))
      (next : (g.fetched.filter fun n => R.partition n = R.partition m) ++ [m] <+:
        R.readFrom (g.start (R.partition m)) (logs (R.partition m))) :
      Step logs answers g { g with fetched := g.fetched ++ [m], pool := g.pool.feed m }
  | work {g : Group R} {pool : Pool M A R.World} (step : R.Step g.pool pool)
      (answered : ∀ e ∈ pool.log, e ∈ g.pool.log ∨ answers e.2) :
      Step logs answers g { g with pool := pool }
  | commit {g : Group R} {k : K} {o : O} (stored : R.stored g.pool.world k = some o) :
      Step logs answers g { g with committed := Function.update g.committed k (some o) }
  | restart {g : Group R} : Step logs answers g g.restart

/-- Some process has handled the message. -/
def Covers (Handled : M → List (Event A) → Prop) (g : Group R) (m : M) : Prop :=
  ∃ t, (m, t) ∈ g.handling ∧ Handled m t

/-- The messages of a partition are handled up to an offset that was reached. -/
def UpTo (Handled : M → List (Event A) → Prop) (logs : K → List M) (g : Group R) (k : K) (o : O) :
    Prop :=
  (∀ m ∈ logs k, R.offset m ≤ o → g.Covers Handled m) ∧ ∃ m ∈ logs k, o ≤ R.offset m

/-- What holds of a group at every moment. -/
structure Safe (Handled : M → List (Event A) → Prop) (logs : K → List M) (g : Group R) : Prop where
  reachable : R.Reachable g.fetched R.initial g.pool
  reads : ∀ m ∈ g.fetched, R.reads (R.partition m)
  fetched : ∀ k, (g.fetched.filter fun m => R.partition m = k) <+: R.readFrom (g.start k) (logs k)
  committed : ∀ k o, g.committed k = some o → g.UpTo Handled logs k o
  start : ∀ k o, g.start k = some o → g.UpTo Handled logs k o

variable {Handled : M → List (Event A) → Prop} {logs : K → List M} {answers : Event A → Prop}
  {g g' : Group R}

/-! ## What was handled stays handled -/

omit [DecidableEq K] [LinearOrder O] in
theorem mem_handling_restart {x : M × List (Event A)} :
    x ∈ g.restart.handling ↔ x ∈ g.handling := by
  simp [restart, handling, Pool.handling, Pool.taken, Pool.start]

theorem Step.handling (h : Step logs answers g g') {m : M} {t : List (Event A)}
    (ht : (m, t) ∈ g.handling) : ∃ more, (m, t ++ more) ∈ g'.handling := by
  cases h with
  | fetch reads next => exact ⟨[], (List.append_nil t).symm ▸ ht⟩
  | work step answered =>
    rcases List.mem_append.mp ht with ht | ht
    · exact ⟨[], List.mem_append_left _ (by simpa using ht)⟩
    · obtain ⟨more, hmore⟩ := step.handling ht
      exact ⟨more, List.mem_append_right _ hmore⟩
  | commit stored => exact ⟨[], (List.append_nil t).symm ▸ ht⟩
  | restart => exact ⟨[], mem_handling_restart.mpr ((List.append_nil t).symm ▸ ht)⟩

theorem Step.covers (hR : R.Guarantees Handled) (h : Step logs answers g g') {m : M}
    (hm : g.Covers Handled m) : g'.Covers Handled m := by
  obtain ⟨t, ht, hhandled⟩ := hm
  obtain ⟨more, hmore⟩ := h.handling ht
  exact ⟨t ++ more, hmore, hR.mono m t more hhandled⟩

theorem Step.upTo (hR : R.Guarantees Handled) (h : Step logs answers g g') {k : K} {o : O}
    (hk : g.UpTo Handled logs k o) : g'.UpTo Handled logs k o :=
  ⟨fun m hm hle => h.covers hR (hk.1 m hm hle), hk.2⟩

/-- A call of a task was among the calls before, or the surroundings could just answer it. -/
theorem Safe.answered (hg : g.Safe Handled logs) (h : Step logs answers g g') {m : M}
    {t : List (Event A)} (ht : (m, t) ∈ g'.handling) {e : Event A} (he : e ∈ t) :
    (∃ x ∈ g.handling, e ∈ x.2) ∨ answers e := by
  cases h with
  | fetch reads next => exact .inl ⟨_, ht, he⟩
  | @work pool step answered =>
    rcases List.mem_append.mp ht with ht | ht
    · exact .inl ⟨_, List.mem_append_left _ ht, he⟩
    · obtain ⟨i, -, rfl⟩ := Pool.mem_handling.mp ht
      rcases answered _ (Pool.mem_logOf.mp he) with hold | hnew
      · have hi : i < g.pool.tasks.length := (Consumer.sound hg.reachable).bound _ hold
        have htaken : g.pool.taken[i]? = some g.pool.tasks[i].1 :=
          Consumer.taken_of_task (List.getElem?_eq_getElem hi)
        exact .inl ⟨_, List.mem_append_right _ (Pool.mem_handling.mpr ⟨i, htaken, rfl⟩),
          Pool.mem_logOf.mpr hold⟩
      · exact .inr hnew
  | commit stored => exact .inl ⟨_, ht, he⟩
  | restart => exact .inl ⟨_, mem_handling_restart.mp ht, he⟩

/-! ## Every message up to a committed offset is handled -/

theorem Safe.increasing (h : g.Safe Handled logs) (hlogs : R.Ordered logs) :
    R.Increasing g.fetched :=
  LogReader.increasing_iff.mpr fun k =>
    ((hlogs k).2.sublist List.filter_sublist).sublist (h.fetched k).sublist

/-- What the process has stored may be committed: of the messages before it the process has taken
all it was to read, and the others were handled before it started. -/
theorem Safe.stored (hR : R.Guarantees Handled) (hlogs : R.Ordered logs) (h : g.Safe Handled logs)
    {k : K} {o : O} (hstored : R.stored g.pool.world k = some o) : g.UpTo Handled logs k o := by
  have hincreasing := h.increasing hlogs
  obtain ⟨hall, last, hlast, hlastk, hle⟩ :=
    hR.stored g.fetched g.pool k o h.reads hincreasing h.reachable hstored
  have hsource := (Consumer.sound h.reachable).source
  have hfetched : last ∈ g.fetched.filter fun m => R.partition m = k :=
    List.mem_filter.mpr ⟨hsource ▸ List.mem_append_left _ hlast, decide_eq_true hlastk⟩
  refine ⟨fun m hm hmo => ?_, last, ?_, hle⟩
  · by_cases hstart : ∃ mark, g.start k = some mark ∧ R.offset m < mark
    · obtain ⟨mark, hmark, hlt⟩ := hstart
      exact (h.start k mark hmark).1 m hm hlt.le
    have hread : m ∈ R.readFrom (g.start k) (logs k) := LogReader.mem_readFrom.mpr
      ⟨hm, fun mark hmark => not_lt.mp fun hlt => hstart ⟨mark, hmark, hlt⟩⟩
    have hsorted : (R.readFrom (g.start k) (logs k)).Pairwise fun m n => R.offset m < R.offset n :=
      (hlogs k).2.sublist List.filter_sublist
    obtain ⟨rest, hrest⟩ := h.fetched k
    rw [← hrest] at hread hsorted
    rcases List.mem_append.mp hread with hin | hafter
    · have hmk : R.partition m = k := (hlogs k).1 m hm
      rw [← hsource] at hin hincreasing
      rcases List.mem_append.mp (List.mem_filter.mp hin).1 with htaken | hstream
      · obtain ⟨i, hi, rfl⟩ := List.mem_iff_getElem.mp htaken
        have hi : g.pool.taken[i]? = some g.pool.taken[i] := List.getElem?_eq_getElem hi
        exact ⟨g.pool.logOf i, List.mem_append_right _ (Pool.mem_handling.mpr ⟨i, hi, rfl⟩),
          hall i _ hi hmk hmo⟩
      · have hlt :=
          (List.pairwise_append.mp hincreasing).2.2 last hlast m hstream (hlastk.trans hmk.symm)
        exact absurd (hmo.trans hle) (not_le.mpr hlt)
    · have hlt := (List.pairwise_append.mp hsorted).2.2 last hfetched m hafter
      exact absurd (hmo.trans hle) (not_le.mpr hlt)
  · exact (LogReader.mem_readFrom.mp ((h.fetched k).subset hfetched)).1

theorem safe_initial : (initial : Group R).Safe Handled logs where
  reachable := .refl
  reads := by simp [initial]
  fetched k := List.nil_prefix
  committed k o h := by cases h
  start k o h := by cases h

theorem Safe.step (hR : R.Guarantees Handled) (hlogs : R.Ordered logs) (h : g.Safe Handled logs)
    (hstep : Step logs answers g g') : g'.Safe Handled logs := by
  have hcommitted := fun k o hk => hstep.upTo hR (h.committed k o hk)
  have hstart := fun k o hk => hstep.upTo hR (h.start k o hk)
  have hstored := fun k o hk => hstep.upTo hR (h.stored hR hlogs (k := k) (o := o) hk)
  cases hstep with
  | @fetch m reads next =>
    refine ⟨h.reachable.feed m, fun n hn => ?_, fun k => ?_, hcommitted, hstart⟩
    · rcases List.mem_append.mp hn with hn | hn
      · exact h.reads n hn
      · rw [List.mem_singleton.mp hn]
        exact reads
    · show (g.fetched ++ [m]).filter _ <+: _
      rw [List.filter_append]
      by_cases hk : R.partition m = k
      · subst hk
        simpa using next
      · simpa [hk] using h.fetched k
  | work step answered => exact ⟨h.reachable.tail step, h.reads, h.fetched, hcommitted, hstart⟩
  | @commit k o stored =>
    refine ⟨h.reachable, h.reads, h.fetched, fun k' o' hk' => ?_, hstart⟩
    by_cases hk : k' = k
    · subst hk
      obtain rfl : o = o' := by simpa using hk'
      exact hstored k' o stored
    · exact hcommitted k' o' (by simpa [hk] using hk')
  | restart => exact ⟨.refl, by simp [Group.restart], fun k => List.nil_prefix, hcommitted, hcommitted⟩

/-- A message that is written lies beyond everything that was committed. -/
theorem Safe.append (h : g.Safe Handled logs) {m : M}
    (last : ∀ n ∈ logs (R.partition m), R.offset n < R.offset m) :
    g.Safe Handled (R.append logs m) := by
  have hupTo (k : K) (o : O) (hk : g.UpTo Handled logs k o) : g.UpTo Handled (R.append logs m) k o := by
    obtain ⟨hall, x, hx, hle⟩ := hk
    refine ⟨fun n hn hno => ?_, x, (LogReader.prefix_append logs m k).subset hx, hle⟩
    by_cases hkm : k = R.partition m
    · subst hkm
      rw [LogReader.append, Function.update_self] at hn
      rcases List.mem_append.mp hn with hn | hn
      · exact hall n hn hno
      · rw [List.mem_singleton.mp hn] at hno
        exact absurd (hno.trans hle) (not_le.mpr (last x hx))
    · rw [LogReader.append, Function.update_of_ne hkm] at hn
      exact hall n hn hno
  refine ⟨h.reachable, h.reads, fun k => (h.fetched k).trans ?_,
    fun k o hk => hupTo k o (h.committed k o hk), fun k o hk => hupTo k o (h.start k o hk)⟩
  exact (LogReader.prefix_append logs m k).filter _

end Group
end Reading
end Interaction
