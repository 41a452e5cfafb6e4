import TypedSheets.Proofs.Pool.Workers
import TypedSheets.Proofs.Session.Requests
import TypedSheets.Proofs.Sorting

/-!
# Every interleaving gives one result

If the outcome of the work on an item depends on the item alone, then so does the result of a run
that does not halt: it is what the outcomes of the items come to in the order of the items, however
many workers there are and in whatever order they take their turns.

## Main definitions

* `Pool.Works` — the work on every item comes to an outcome of its own.
* `Pool.Shown` — what the workers have done so far is right.
* `Pool.Whole` — every item is in one place.

## Main results

* `Pool.shown_of_leads` — whatever the workers have done is right, in a halting pool too.
* `Pool.whole_of_leads` — no item is lost or worked on twice.
* `Pool.result_of_finished` — a finished run comes to what its items come to.
* `Pool.interleaved` — every run ends, and has the result of a run with one worker.
-/

namespace TypedSheets

/-- Whether the work failed by itself, with a fault or unexpectedly. -/
def Outcome.faulted {ω : Type} : Outcome ω → Bool
  | fault _ | panic _ => true
  | _ => false

namespace Pool

open Recall

variable {ι ω : Type} {I : Condition} {work : ι → Recall (Worked ω)} {f : ι → Outcome ω}
  {R : ι → Outcome ω → Prop} {items : List ι}

/-- The work on every item comes to an outcome of its own, with every memory that meets the
condition. -/
def Works (I : Condition) (work : ι → Recall (Worked ω)) (f : ι → Outcome ω) (items : List ι) :
    Prop :=
  ∀ i ∈ items, Ensures I (work i) fun c => c.outcome = f i

/-- The work on every item comes to an outcome that it can have, with every memory that meets the
condition. -/
def Brings (I : Condition) (work : ι → Recall (Worked ω)) (R : ι → Outcome ω → Prop)
    (items : List ι) : Prop :=
  ∀ i ∈ items, Ensures I (work i) fun c => R i c.outcome

/-! ### What the workers have done -/

/-- What a worker has in hand is an item with the work that is left of it. -/
def Hand.Shown (I : Condition) (f : ι → Outcome ω) (items : List ι) : Hand ι ω → Prop
  | .taken k i => items[k]? = some i
  | .working k c => ∃ i, items[k]? = some i ∧ Ensures I c fun c => c.outcome = f i
  | _ => True

/-- What a worker has in hand is an item, and the outcomes that it has kept are those of items. -/
structure Worker.Shown (I : Condition) (f : ι → Outcome ω) (items : List ι) (w : Worker ι ω) :
    Prop where
  /-- What it has in hand. -/
  hand : w.hand.Shown I f items
  /-- What it has kept. -/
  finished : ∀ p ∈ w.finished, ∃ i, items[p.1]? = some i ∧ p.2 = f i

/-- The queue holds items, and the memory meets the condition. -/
structure Shared.Shown (I : Condition) (items : List ι) (s : Shared ι) : Prop where
  /-- The memory. -/
  memory : s.memory.Meets I
  /-- The queue. -/
  queue : ∀ p ∈ s.queue, items[p.1]? = some p.2

/-- What the workers have done so far is right. -/
structure Shown (I : Condition) (f : ι → Outcome ω) (items : List ι) (s : State ι ω) : Prop where
  /-- What they share. -/
  shared : s.shared.Shown I items
  /-- What each of them has done. -/
  workers : ∀ w ∈ s.workers, w.Shown I f items

/-- The outcomes that a worker has kept are such as the work on their items can have, and so will be
that of the item it is working on. -/
structure Worker.Fits (I : Condition) (R : ι → Outcome ω → Prop) (items : List ι)
    (w : Worker ι ω) : Prop where
  /-- An item in hand. -/
  taken : ∀ k i, w.hand = .taken k i → items[k]? = some i
  /-- What is left of the work on an item. -/
  working : ∀ k c, w.hand = .working k c →
    ∃ i, items[k]? = some i ∧ Ensures I c fun c => R i c.outcome
  /-- What it has kept. -/
  finished : ∀ p ∈ w.finished, ∃ i, items[p.1]? = some i ∧ R i p.2

/-- The outcomes that are kept are such as the work on their items can have. -/
structure Fits (I : Condition) (R : ι → Outcome ω → Prop) (items : List ι) (s : State ι ω) :
    Prop where
  /-- What the workers share. -/
  shared : s.shared.Shown I items
  /-- What each of them has done. -/
  workers : ∀ w ∈ s.workers, w.Fits I R items

/-- A turn keeps outcomes that the work on their items can have. -/
theorem Turn.fits (hwork : Brings I work R items) {halting : Bool} {s s' : Shared ι}
    {w w' : Worker ι ω} (h : Turn work halting s w s' w') (hs : s.Shown I items)
    (hw : w.Fits I R items) : s'.Shown I items ∧ w'.Fits I R items := by
  obtain ⟨hm, hq⟩ := hs
  obtain ⟨htaken, hworking, hl⟩ := hw
  cases h with
  | take =>
    obtain ⟨hitem, hq⟩ := List.forall_mem_cons.1 hq
    refine ⟨⟨hm, hq⟩, fun k i h => ?_, nofun, hl⟩
    cases h
    exact hitem
  | leave => exact ⟨⟨hm, hq⟩, nofun, nofun, hl⟩
  | quit => exact ⟨⟨hm, hq⟩, nofun, nofun, hl⟩
  | @begin k i =>
    have hitem := htaken k i rfl
    refine ⟨⟨hm, hq⟩, nofun, fun k' c h => ?_, hl⟩
    cases h
    exact ⟨i, hitem, hwork i (List.mem_of_getElem? hitem)⟩
  | @ask k query next =>
    obtain ⟨i, hitem, hc⟩ := hworking k _ rfl
    refine ⟨⟨hm, hq⟩, nofun, fun k' c h => ?_, hl⟩
    cases h
    exact ⟨i, hitem, (Ensures.step (c := .ask query next) hc hm).1⟩
  | @note k query a next =>
    obtain ⟨i, hitem, hc⟩ := hworking k _ rfl
    have hstep := Ensures.step (c := .note query a next) hc hm
    refine ⟨⟨hstep.2, hq⟩, nofun, fun k' c h => ?_, hl⟩
    cases h
    exact ⟨i, hitem, hstep.1⟩
  | @finish k c =>
    obtain ⟨i, hitem, hc⟩ := hworking k _ rfl
    refine ⟨⟨hm, hq⟩, nofun, nofun, List.forall_mem_append.2 ⟨hl, ?_⟩⟩
    exact List.forall_mem_singleton.2 ⟨i, hitem, hc⟩

theorem Step.fits (hwork : Brings I work R items) {halting : Bool} {s s' : State ι ω}
    (h : Step work halting s s') (hs : Fits I R items s) : Fits I R items s' := by
  obtain ⟨hshared, hworkers⟩ := hs
  cases h with
  | @turn before after shared shared' w w' h =>
    obtain ⟨hbefore, hrest⟩ := List.forall_mem_append.1 hworkers
    obtain ⟨hw, hafter⟩ := List.forall_mem_cons.1 hrest
    obtain ⟨hshared', hw'⟩ := h.fits hwork hshared hw
    exact ⟨hshared', List.forall_mem_append.2 ⟨hbefore, List.forall_mem_cons.2 ⟨hw', hafter⟩⟩⟩

theorem fits_start {m : Memory} (hm : m.Meets I) (workers : Nat) :
    Fits I R items (start ω workers items m) where
  shared := by
    refine ⟨hm, fun p hp => ?_⟩
    obtain ⟨⟨i, k⟩, hmem, rfl⟩ := List.mem_map.1 hp
    exact List.mk_mem_zipIdx_iff_getElem?.1 hmem
  workers := by
    intro w hw
    cases List.eq_of_mem_replicate hw
    exact ⟨nofun, nofun, nofun⟩

/-- A run keeps outcomes that the work on their items can have. -/
theorem fits_of_leads (hwork : Brings I work R items) {halting : Bool} {workers : Nat} {m : Memory}
    (hm : m.Meets I) {s : State ι ω} (h : Leads work halting (start ω workers items m) s) :
    Fits I R items s := by
  induction h with
  | refl => exact fits_start hm workers
  | tail _ hstep ih => exact hstep.fits hwork ih

/-- Work on an item that comes to an outcome of its own can have this outcome only. -/
theorem Fits.shown {s : State ι ω} (h : Fits I (fun i o => o = f i) items s) :
    Shown I f items s := by
  refine ⟨h.shared, fun w hw => ?_⟩
  obtain ⟨htaken, hworking, hfinished⟩ := h.workers w hw
  refine ⟨?_, hfinished⟩
  cases hhand : w.hand with
  | empty => trivial
  | taken k i => exact htaken k i hhand
  | working k c => exact hworking k c hhand
  | gone => trivial

/-- Whatever the workers of a run have done is right. -/
theorem shown_of_leads (hwork : Works I work f items) {halting : Bool} {workers : Nat} {m : Memory}
    (hm : m.Meets I) {s : State ι ω} (h : Leads work halting (start ω workers items m) s) :
    Shown I f items s := by
  have hbrings : Brings I work (fun i o => o = f i) items := hwork
  exact (fits_of_leads hbrings hm h).shown

/-! ### Where the items are -/

/-- The position of the item that a worker has in hand. -/
def Hand.positions : Hand ι ω → List Nat
  | .taken k _ | .working k _ => [k]
  | _ => []

/-- The positions of the items that a worker has, in hand or finished. -/
def Worker.positions (w : Worker ι ω) : List Nat :=
  w.hand.positions ++ w.finished.map Prod.fst

/-- The positions of all items, wherever they are. -/
def State.positions (s : State ι ω) : List Nat :=
  s.shared.queue.map Prod.fst ++ s.workers.flatMap Worker.positions

/-- No item is in two places. Unless some work has failed in a halting pool, every item is in one,
and no worker leaves before all are taken. -/
structure Whole (n : Nat) (s : State ι ω) : Prop where
  /-- No item is in two places. -/
  kept : s.positions.Subperm (List.range n)
  /-- Every item is in one place. -/
  positions : s.shared.halted = false → s.positions.Perm (List.range n)
  /-- The queue is empty once a worker has left, and if there are none. -/
  left : s.shared.halted = false → (s.workers = [] ∨ ∃ w ∈ s.workers, w.hand = .gone) →
    s.shared.queue = []
  /-- Some item has failed. -/
  halted : s.shared.halted = true → ∃ w ∈ s.workers, ∃ p ∈ w.finished, p.2.failed = true

/-- A turn moves at most one item, and loses it only if some work has failed. -/
theorem Turn.whole {halting : Bool} {s s' : Shared ι} {w w' : Worker ι ω}
    (h : Turn work halting s w s' w') :
    (s'.queue.map Prod.fst ++ w'.positions).Subperm (s.queue.map Prod.fst ++ w.positions) ∧
      (s'.halted = false → s.halted = false ∧
        (s'.queue.map Prod.fst ++ w'.positions).Perm (s.queue.map Prod.fst ++ w.positions) ∧
        (s.queue = [] → s'.queue = []) ∧ (w'.hand = .gone → s'.queue = [])) := by
  cases h with
  | take =>
    refine ⟨List.perm_middle.subperm, fun hf => ⟨hf, List.perm_middle, ?_, ?_⟩⟩ <;>
      intro h <;> cases h
  | leave => exact ⟨.refl _, fun hf => ⟨hf, .refl _, fun _ => rfl, fun _ => rfl⟩⟩
  | quit =>
    refine ⟨List.Sublist.subperm (.append_left (List.sublist_cons_self ..) _), fun h => ?_⟩
    cases h
  | begin => exact ⟨.refl _, fun hf => ⟨hf, .refl _, id, nofun⟩⟩
  | ask => exact ⟨.refl _, fun hf => ⟨hf, .refl _, id, nofun⟩⟩
  | note => exact ⟨.refl _, fun hf => ⟨hf, .refl _, id, nofun⟩⟩
  | @finish k c q h m l =>
    have hperm : (Worker.mk (.empty : Hand ι ω) (l ++ [(k, c.outcome)])).positions.Perm
        (Worker.mk (.working k (.done c) : Hand ι ω) l).positions := by
      simp [Worker.positions, Hand.positions]
    refine ⟨(hperm.append_left _).subperm, fun hf => ⟨?_, hperm.append_left _, id, fun h => ?_⟩⟩
    · cases h with
      | false => rfl
      | true => cases hf
    · cases h

/-- A pool halts with a failure, which is kept. -/
theorem Turn.halts {halting : Bool} {s s' : Shared ι} {w w' : Worker ι ω}
    (h : Turn work halting s w s' w') :
    (∀ p ∈ w.finished, p ∈ w'.finished) ∧
      (s'.halted = true → s.halted = true ∨ ∃ p ∈ w'.finished, p.2.failed = true) := by
  cases h with
  | @finish k c q h m l =>
    refine ⟨fun p hp => List.mem_append_left _ hp, fun hh => ?_⟩
    rcases Bool.or_eq_true_iff.1 hh with hh | hh
    · exact .inl hh
    · exact .inr ⟨(k, c.outcome), List.mem_append_right l (List.mem_singleton.2 rfl),
        (Bool.and_eq_true_iff.1 hh).2⟩
  | _ => exact ⟨fun _ hp => hp, fun hh => .inl hh⟩

/-- The positions of the queue and of one worker apart from those of the others. -/
theorem positions_split (s : Shared ι) (before after : List (Worker ι ω)) (w : Worker ι ω) :
    (State.positions ⟨s, before ++ w :: after⟩).Perm
      ((s.queue.map Prod.fst ++ w.positions) ++
        (before.flatMap Worker.positions ++ after.flatMap Worker.positions)) := by
  simp only [State.positions, List.flatMap_append, List.flatMap_cons, List.append_assoc]
  refine List.Perm.append_left _ ?_
  exact List.perm_append_comm_assoc ..

theorem Step.whole {halting : Bool} {n : Nat} {s s' : State ι ω} (h : Step work halting s s')
    (hs : Whole n s) : Whole n s' := by
  obtain ⟨hkept, hpositions, hleft, hhalted⟩ := hs
  cases h with
  | @turn before after shared shared' w w' h =>
    obtain ⟨hsub, hrunning⟩ := h.whole
    obtain ⟨hfinished, hhalts⟩ := h.halts
    refine ⟨?_, fun hf => ?_, fun hf => ?_, fun ht => ?_⟩
    · refine List.Subperm.trans ?_ hkept
      refine (positions_split ..).subperm.trans ?_
      exact ((List.subperm_append_right _).2 hsub).trans (positions_split ..).symm.subperm
    · obtain ⟨hf', hmove, -, -⟩ := hrunning hf
      refine ((positions_split ..).trans ?_).trans (hpositions hf')
      exact (hmove.append_right _).trans (positions_split ..).symm
    · obtain ⟨hf', -, hempty, hgone⟩ := hrunning hf
      rintro (hnil | ⟨v, hv, hvgone⟩)
      · exact absurd hnil (by simp)
      · rcases List.mem_append.1 hv with hv | hv
        · exact hempty (hleft hf' (.inr ⟨v, List.mem_append_left _ hv, hvgone⟩))
        · rcases List.mem_cons.1 hv with rfl | hv
          · exact hgone hvgone
          · have hv := List.mem_append_right before (List.mem_cons_of_mem w hv)
            exact hempty (hleft hf' (.inr ⟨v, hv, hvgone⟩))
    · rcases hhalts ht with ht | ⟨p, hp, hfailed⟩
      · obtain ⟨v, hv, p, hp, hfailed⟩ := hhalted ht
        rcases List.mem_append.1 hv with hv | hv
        · exact ⟨v, List.mem_append_left _ hv, p, hp, hfailed⟩
        · rcases List.mem_cons.1 hv with rfl | hv
          · exact ⟨w', List.mem_append_right before (List.mem_cons_self ..), p, hfinished p hp,
              hfailed⟩
          · exact ⟨v, List.mem_append_right before (List.mem_cons_of_mem w' hv), p, hp, hfailed⟩
      · exact ⟨w', List.mem_append_right before (List.mem_cons_self ..), p, hp, hfailed⟩

theorem whole_start (workers : Nat) (m : Memory) :
    Whole items.length (start ω workers items m) := by
  have hpositions : (start ω workers items m).positions = List.range items.length := by
    have hqueue : (items.zipIdx.map Prod.swap).map Prod.fst = List.range items.length := by
      rw [List.map_map]
      exact (List.zipIdx_map_snd 0 items).trans List.range_eq_range'.symm
    have hworkers (n : Nat) : (List.replicate n (⟨.empty, []⟩ : Worker ι ω)).flatMap
        Worker.positions = [] := by
      rw [List.flatMap_eq_nil_iff]
      intro w hw
      cases List.eq_of_mem_replicate hw
      rfl
    rw [State.positions, start, hworkers, List.append_nil, hqueue]
  refine ⟨hpositions ▸ .refl _, fun _ => hpositions ▸ .refl _, fun _ => ?_, nofun⟩
  rintro (hnil | ⟨w, hw, hgone⟩)
  · have hlength := congrArg List.length hnil
    simp only [start, List.length_replicate, List.length_nil] at hlength
    have hitems : items = [] := List.eq_nil_of_length_eq_zero (by omega)
    simp [start, hitems]
  · cases List.eq_of_mem_replicate hw
    cases hgone

/-- No item is lost or worked on twice in a run, unless some work has failed in a halting pool. -/
theorem whole_of_leads {halting : Bool} {workers : Nat} {m : Memory} {s : State ι ω}
    (h : Leads work halting (start ω workers items m) s) : Whole items.length s := by
  induction h with
  | refl => exact whole_start workers m
  | tail _ hstep ih => exact hstep.whole ih

/-- A pool that is not to halt does not. -/
theorem running_of_leads {workers : Nat} {m : Memory} {s : State ι ω}
    (h : Leads work false (start ω workers items m) s) : s.shared.halted = false := by
  induction h with
  | refl => rfl
  | tail _ hstep ih =>
    cases hstep with
    | turn h =>
      cases h with
      | finish => simpa using ih
      | quit => cases ih
      | _ => exact ih

/-! ### The result -/

/-- Workers that have left have nothing but what they have kept. -/
theorem State.Finished.positions {s : State ι ω} (h : s.Finished) :
    s.workers.flatMap Worker.positions = (s.workers.flatMap Worker.finished).map Prod.fst := by
  rw [List.map_flatMap]
  refine List.flatMap_congr fun w hw => ?_
  rw [Worker.positions, h w hw]
  rfl

/-- Unless some work has failed in a halting pool, a finished run has kept the outcomes of all
items, in order. -/
theorem outcomes_of_running {s : State ι ω} {os : List (Outcome ω)}
    (hlength : os.length = items.length) (hkept : ∀ p ∈ s.outcomes, os[p.1]? = some p.2)
    (hwhole : Whole items.length s) (hrunning : s.shared.halted = false)
    (hfinished : s.Finished) : s.outcomes = os.zipIdx.map Prod.swap := by
  have hqueue : s.shared.queue = [] := by
    refine hwhole.left hrunning ?_
    cases hworkers : s.workers with
    | nil => exact .inl rfl
    | cons w ws =>
      have hw : w ∈ s.workers := hworkers ▸ List.mem_cons_self ..
      exact .inr ⟨w, List.mem_cons_self .., hfinished w hw⟩
  have hkeys :
      ((s.workers.flatMap Worker.finished).map Prod.fst).Perm (List.range items.length) := by
    have hpositions := hwhole.positions hrunning
    rwa [State.positions, hqueue, hfinished.positions] at hpositions
  exact sortBy_positions (hlength ▸ hkeys) fun p hp => hkept p (mem_sortBy.2 hp)

/-- The items of a finished run have their outcomes, in order. -/
theorem outcomes_of_finished {s : State ι ω} (hshown : Shown I f items s)
    (hwhole : Whole items.length s) (hrunning : s.shared.halted = false)
    (hfinished : s.Finished) : s.outcomes = (items.map f).zipIdx.map Prod.swap := by
  refine outcomes_of_running (List.length_map f) (fun p hp => ?_) hwhole hrunning hfinished
  obtain ⟨w, hw, hp⟩ := List.mem_flatMap.1 (mem_sortBy.1 hp)
  obtain ⟨i, hitem, hout⟩ := (hshown.workers w hw).finished p hp
  rw [List.getElem?_map, hitem, hout]
  rfl

/-- Outcomes with the positions that they have in a list are gathered like the list. -/
theorem collect_zipIdx (stage : String) (os : List (Outcome ω)) :
    collect stage (os.zipIdx.map Prod.swap) = gather stage os := by
  have hfaults (position : Nat) (os : List (Outcome ω)) :
      ((os.zipIdx position).map Prod.swap).flatMap (fun o => o.2.faults stage o.1) =
        faultsFrom stage position os := by
    induction os generalizing position with
    | nil => rfl
    | cons o os ih =>
      rw [faultsFrom, ← ih, List.zipIdx_cons]
      rfl
  have hrest {β : Type} (g : Outcome ω → List β) :
      (os.zipIdx.map Prod.swap).flatMap (fun o => g o.2) = os.flatMap g := by
    rw [List.flatMap_map]
    conv_rhs => rw [← List.zipIdx_map_fst 0 os, List.flatMap_map]
    rfl
  rw [collect, gather, hfaults, hrest, hrest]

/-- A run has outputs only if all outcomes that are kept are clean, and these are their outputs. -/
theorem collect_ok {stage : String} {kept : List (Nat × Outcome ω)} {outputs : List ω}
    (h : collect stage kept = .ok outputs) :
    (∀ p ∈ kept, p.2.Clean) ∧ outputs = kept.flatMap fun p => p.2.outputs := by
  unfold collect at h
  dsimp only at h
  split at h
  · cases h
  · rename_i hf
    split at h
    · cases h
    · rename_i hd
      cases h
      simp only [Bool.not_eq_true, Bool.not_eq_false', List.isEmpty_iff,
        List.flatMap_eq_nil_iff] at hf hd
      exact ⟨fun p hp => Outcome.clean_of_nil (hf p hp) (hd p hp), rfl⟩

/-- A run is rejected with the diagnostics that are kept, and only if there are some. -/
theorem collect_rejected {stage : String} {kept : List (Nat × Outcome ω)} {ds : List Diagnostic}
    (h : collect stage kept = .error (.rejected ds)) :
    ds ≠ [] ∧ ds = kept.flatMap fun p => p.2.diagnostics := by
  unfold collect at h
  dsimp only at h
  split at h
  · cases h
  · split at h
    · rename_i hd
      cases h
      exact ⟨by simpa using hd, rfl⟩
    · cases h

/-- A finished run comes to what its items come to in their order. -/
theorem result_of_finished {s : State ι ω} (stage : String) (hshown : Shown I f items s)
    (hwhole : Whole items.length s) (hrunning : s.shared.halted = false)
    (hfinished : s.Finished) : s.result stage = gather stage (items.map f) := by
  rw [State.result, outcomes_of_finished hshown hwhole hrunning hfinished, collect_zipIdx]

/-- A run from item to item comes to the same. -/
theorem run_eq_gather (hwork : Works I work f items) {m : Memory} (hm : m.Meets I)
    (stage : String) :
    ((run stage false (fun i => Worked.outcome <$> work i) items).run m).1 =
      gather stage (items.map f) := by
  have hall : Ensures I (items.mapM fun i => Worked.outcome <$> work i)
      (List.Forall₂ (fun i o => o = f i) items) :=
    Ensures.mapM fun i hi => (hwork i hi).map
  have hos := (hall.run hm).1
  rw [run, outcomes_false, run_map]
  generalize ((items.mapM fun i => Worked.outcome <$> work i).run m).1 = os at hos
  refine congrArg (gather stage) ?_
  clear hall hwork
  induction hos with
  | nil => rfl
  | cons ho _ ih => rw [List.map_cons, ho, ih]

/-! ### What outcomes come to -/

theorem faults_eq_nil {o : Outcome ω} {stage : String} {position : Nat} :
    o.faults stage position = [] ↔ o.faulted = false := by
  cases o <;> simp [Outcome.faults, Outcome.faulted]

theorem faultsFrom_eq_nil {stage : String} {position : Nat} {os : List (Outcome ω)} :
    faultsFrom stage position os = [] ↔ ∀ o ∈ os, o.faulted = false := by
  induction os generalizing position with
  | nil => simp [faultsFrom]
  | cons o os ih => simp [faultsFrom, faults_eq_nil, ih]

/-- What has failed without a fault is rejected, with diagnostics unless it is without any. -/
theorem diagnostics_ne_nil {o : Outcome ω} (hno : o.faulted = false) (hfull : o ≠ .rejected [])
    (hfailed : o.failed = true) : o.diagnostics ≠ [] := by
  cases o with
  | success outputs => cases hfailed
  | rejected ds => exact fun hds => hfull (congrArg _ hds)
  | fault text => cases hno
  | panic text => cases hno

theorem failed_of_diagnostics {o : Outcome ω} (h : o.diagnostics ≠ []) : o.failed = true := by
  cases o with
  | success outputs => exact absurd rfl h
  | _ => rfl

/-- A fault of some item aborts a run, with the faults of all items. -/
theorem gather_of_faulted {stage : String} {os : List (Outcome ω)}
    (h : ∃ o ∈ os, o.faulted = true) :
    gather stage os = .error (.aborted (faultsFrom stage 0 os)) := by
  have hne : (faultsFrom stage 0 os).isEmpty = false := by
    rw [List.isEmpty_eq_false_iff, Ne, faultsFrom_eq_nil]
    intro hall
    obtain ⟨o, ho, hfault⟩ := h
    cases (hall o ho).symm.trans hfault
  simp [gather, hne]

/-- Without faults, the rejection of some item rejects a run, with the diagnostics of all items. -/
theorem gather_of_rejected {stage : String} {os : List (Outcome ω)}
    (hno : ∀ o ∈ os, o.faulted = false) (h : ∃ o ∈ os, o.diagnostics ≠ []) :
    gather stage os = .error (.rejected (os.flatMap Outcome.diagnostics)) := by
  have hne : (os.flatMap Outcome.diagnostics).isEmpty = false := by
    rw [List.isEmpty_eq_false_iff, Ne, List.flatMap_eq_nil_iff]
    intro hall
    obtain ⟨o, ho, hds⟩ := h
    exact hds (hall o ho)
  simp [gather, faultsFrom_eq_nil.2 hno, hne]

/-- Without failures, a run has the outputs of all items. -/
theorem gather_of_succeeded {stage : String} {os : List (Outcome ω)}
    (h : ∀ o ∈ os, o.failed = false) : gather stage os = .ok (os.flatMap Outcome.outputs) := by
  have hfaults : faultsFrom stage 0 os = [] := by
    refine faultsFrom_eq_nil.2 fun o ho => ?_
    have ho := h o ho
    cases o <;> first | rfl | cases ho
  have hds : os.flatMap Outcome.diagnostics = [] := by
    refine List.flatMap_eq_nil_iff.2 fun o ho => ?_
    have ho := h o ho
    cases o <;> first | rfl | cases ho
  simp [gather, hfaults, hds]

/-- **Every interleaving gives one result.** Let the outcome of the work on an item depend on the
item alone, and let no rejection be without diagnostics. In every state of a run that does not halt,
every item is in one place and the outcomes that are kept are those of their items, with nothing of
what a failed item had pushed; until the workers have left, one of them has a turn, and no run goes
on forever. A finished run has the result of a run from item to item: the faults of all items in
order if there are any, or else the diagnostics of all items in order if there are any, or else
their outputs in order. -/
theorem interleaved (hwork : Works I work f items) (hfull : ∀ i ∈ items, f i ≠ .rejected [])
    {m : Memory} (hm : m.Meets I) (workers : Nat) (stage : String) :
    (∀ s, Leads work false (start ω workers items m) s →
      s.positions.Perm (List.range items.length) ∧
      (∀ w ∈ s.workers, ∀ p ∈ w.finished,
        (∃ i, items[p.1]? = some i ∧ p.2 = f i) ∧ (p.2.failed = true → p.2.outputs = [])) ∧
      (¬ s.Finished → ∃ s', Step work false s s') ∧
      (s.Finished →
        s.result stage =
            ((run stage false (fun i => Worked.outcome <$> work i) items).run m).1 ∧
          ((∃ i ∈ items, (f i).faulted = true) →
            s.result stage = .error (.aborted (faultsFrom stage 0 (items.map f)))) ∧
          ((∀ i ∈ items, (f i).faulted = false) → (∃ i ∈ items, (f i).failed = true) →
            s.result stage = .error (.rejected (items.flatMap fun i => (f i).diagnostics))) ∧
          ((∀ i ∈ items, (f i).failed = false) →
            s.result stage = .ok (items.flatMap fun i => (f i).outputs)))) ∧
      WellFounded fun s' s : State ι ω => Step work false s s' := by
  refine ⟨fun s h => ?_, wellFounded_step⟩
  have hshown := shown_of_leads hwork hm h
  have hwhole := whole_of_leads h
  have hrunning := running_of_leads h
  refine ⟨hwhole.positions hrunning, fun w hw p hp => ⟨(hshown.workers w hw).finished p hp, ?_⟩,
    exists_step, fun hfinished => ?_⟩
  · intro hfailed
    cases ho : p.2 <;> rw [ho] at hfailed <;> first | rfl | cases hfailed
  · rw [run_eq_gather hwork hm, result_of_finished stage hshown hwhole hrunning hfinished]
    refine ⟨rfl, fun ⟨i, hi, hfault⟩ => ?_, fun hno ⟨i, hi, hfail⟩ => ?_, fun hall => ?_⟩
    · exact gather_of_faulted ⟨f i, List.mem_map_of_mem hi, hfault⟩
    · have hds := diagnostics_ne_nil (hno i hi) (hfull i hi) hfail
      rw [gather_of_rejected (List.forall_mem_map.2 hno) ⟨f i, List.mem_map_of_mem hi, hds⟩,
        List.flatMap_map]
    · rw [gather_of_succeeded (List.forall_mem_map.2 hall), List.flatMap_map]

/-- What is left of the work on a number that is pushed twice: one is too much, and any other but
zero is rejected. -/
def echo (n : Nat) : Worked Nat where
  pushed := [n, n]
  ending :=
    match n with
    | 0 => .finished
    | 1 => .panic "too much"
    | _ => .rejected [{ failure := .parse "no" }]

/-- Two workers share three numbers; however they take turns, their run can be ended, and the panic
aborts it. -/
theorem interleaved_echo :
    (∃ s, Leads (fun n => pure (echo n)) false (start Nat 2 [0, 1, 2] {}) s ∧ s.Finished) ∧
      ∀ s, Leads (fun n => pure (echo n)) false (start Nat 2 [0, 1, 2] {}) s → s.Finished →
        s.result "echo" = .error (.aborted ["echo: work item 1 panicked: too much"]) := by
  have hwork : Works (fun _ _ => True) (fun n => pure (echo n)) (fun n => (echo n).outcome)
      [0, 1, 2] := fun n _ => rfl
  have hfull : ∀ n ∈ [0, 1, 2], (echo n).outcome ≠ .rejected [] := by
    intro n hn
    simp only [List.mem_cons, List.not_mem_nil, or_false] at hn
    rcases hn with rfl | rfl | rfl <;> intro h <;> cases h
  obtain ⟨hruns, -⟩ := interleaved hwork hfull (Memory.meets_empty _) 2 "echo"
  refine ⟨exists_finished _, fun s hs hfinished => ?_⟩
  obtain ⟨-, -, -, hresult⟩ := hruns s hs
  rw [(hresult hfinished).2.1 ⟨1, by decide, rfl⟩]
  have hone : Text.natText 1 = "1" := by
    rw [Text.natText, Text.decimal]
    decide
  simp [faultsFrom, Outcome.faults, Worked.outcome, echo, hone]

end Pool

end TypedSheets
