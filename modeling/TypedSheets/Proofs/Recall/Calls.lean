import TypedSheets.Proofs.Recall.Attempt

/-!
# Computations that call others

A recursive computation is a computation of the calls it makes. What it comes to, with or without a
memory, is put together from what the calls come to: it is enough that every call agrees with the
computation that remembers nothing, and of the calls only those matter that the computation really
makes.

## Main definitions

* `Recall.Transparent` — an attempt that ends as it does without a memory.
* `Recall.Calls` — a computation that is put together from calls.
* `Recall.valueWith` — what it comes to when the results of the calls are known.
* `Recall.Settled` — a result that growing bounds on a recursion come to.

## Main results

* `Recall.Calls.mono_ok`, `Recall.Calls.mono` — more results of calls, the same result.
* `Recall.Calls.catch_up` — only the calls that are made matter.
* `Recall.Calls.settled` — with a memory, a computation comes to what it comes to without one.
-/

namespace TypedSheets.Recall

open Attempt

variable {α β γ κ : Type} {I : Condition}

/-! ### Attempts that need no memory -/

/-- With every memory that meets the condition, an attempt ends as it does without one. -/
def Transparent (I : Condition) (a : Attempt α) : Prop :=
  Ensures I a.run fun r => r = a.run.fresh

theorem transparent_pure (a : α) : Transparent I (pure a : Attempt α) := rfl

theorem transparent_throw (h : Halt) : Transparent I (throw h : Attempt α) := rfl

theorem fresh_bind_run {ε : Type} (a : ExceptT ε Recall α) (f : α → ExceptT ε Recall β) :
    (a >>= f).run.fresh = a.run.fresh >>= fun x => (f x).run.fresh := by
  rw [ExceptT.run_bind, fresh_bind]
  cases a.run.fresh <;> rfl

/-- Work goes on with the result of what came before. -/
theorem fresh_bind_run_of_ok {ε : Type} {a : ExceptT ε Recall α} {f : α → ExceptT ε Recall β}
    {x : α} (h : a.run.fresh = .ok x) : (a >>= f).run.fresh = (f x).run.fresh := by
  rw [fresh_bind_run, h]
  rfl

theorem fresh_map_run {ε : Type} (f : α → β) (a : ExceptT ε Recall α) :
    (f <$> a).run.fresh = a.run.fresh.map f := by
  rw [← bind_pure_comp, fresh_bind_run]
  cases a.run.fresh <;> rfl

theorem fresh_map (f : α → β) (c : Recall α) : (f <$> c).fresh = f c.fresh := by
  rw [← bind_pure_comp, fresh_bind, fresh_pure]

theorem fresh_mapM {ι : Type} (f : ι → Recall α) (l : List ι) :
    (l.mapM f).fresh = l.map fun i => (f i).fresh := by
  induction l with
  | nil => rfl
  | cons i l ih => rw [List.mapM_cons, fresh_bind, fresh_bind, ih, fresh_pure, List.map_cons]

theorem fresh_mapM_run {ι ε : Type} (f : ι → ExceptT ε Recall α) (l : List ι) :
    (l.mapM f).run.fresh = l.mapM fun i => (f i).run.fresh := by
  induction l with
  | nil => rfl
  | cons i l ih =>
    rw [List.mapM_cons, List.mapM_cons, fresh_bind_run]
    refine bind_congr fun a => ?_
    rw [fresh_bind_run, ih]
    rfl

theorem Transparent.bind {a : Attempt α} {f : α → Attempt β} (ha : Transparent I a)
    (hf : ∀ x, a.run.fresh = .ok x → Transparent I (f x)) : Transparent I (a >>= f) := by
  rw [Transparent, fresh_bind_run]
  refine Ensures.bind (c := a.run) (f := ExceptT.bindCont f) ha fun r hr => ?_
  subst hr
  cases hfresh : a.run.fresh with
  | ok x => exact hf x hfresh
  | error e => rfl

theorem Transparent.map {a : Attempt α} {f : α → β} (ha : Transparent I a) :
    Transparent I (f <$> a) := by
  rw [← bind_pure_comp]
  exact ha.bind fun _ _ => transparent_pure _

theorem transparent_fail (f : Failure) : Transparent I (fail f : Attempt α) := rfl

theorem transparent_ofExcept (r : Except Failure α) : Transparent I (ofExcept r) := by
  cases r <;> rfl

/-- Without a memory, nothing is remembered. -/
theorem fresh_remember (q : Query) (compute : Attempt q.Answer) :
    (remember q compute).run.fresh = compute.run.fresh := by
  change (compute.run >>= _).fresh = _
  rw [fresh_bind]
  cases compute.run.fresh <;> rfl

/-! ### Computations of calls -/

/-- A computation that is put together from calls and from attempts that need no memory. If it is
strict, a failure of a part is a failure of the whole. -/
inductive Calls (I : Condition) (strict : Bool) {κ β : Type} :
    {α : Type} → ((κ → Attempt β) → Attempt α) → Prop
  /-- No call. -/
  | known {α : Type} {a : Attempt α} (h : Transparent I a) : Calls I strict fun _ => a
  /-- One call. -/
  | call (x : κ) : Calls I strict fun sub => sub x
  /-- Calls, and further ones that depend on their result. -/
  | bind {α γ : Type} {p : (κ → Attempt β) → Attempt α} {q : α → (κ → Attempt β) → Attempt γ}
    (hp : Calls I strict p) (hq : ∀ a, Calls I strict (q a)) :
    Calls I strict fun sub => p sub >>= fun a => q a sub
  /-- Calls whose result is changed. -/
  | through {α γ : Type} {p : (κ → Attempt β) → Attempt α} {g : Except Halt α → Except Halt γ}
    (hp : Calls I strict p) (hend : ∀ r, g r = .error .endless ↔ r = .error .endless)
    (hstrict : strict = true → ∀ e, ∃ e', g (.error e) = .error e') :
    Calls I strict fun sub => ExceptT.mk (g <$> (p sub).run)

namespace Calls

variable {strict : Bool}

theorem pure (a : α) : Calls I strict fun _ : κ → Attempt β => (Pure.pure a : Attempt α) :=
  known (transparent_pure a)

theorem throw (h : Halt) : Calls I strict fun _ : κ → Attempt β => (throw h : Attempt α) :=
  known (transparent_throw h)

theorem map {p : (κ → Attempt β) → Attempt α} {f : α → γ} (hp : Calls I strict p) :
    Calls I strict fun sub => f <$> p sub := by
  simp only [← bind_pure_comp]
  exact hp.bind fun a => pure (f a)

theorem mapM {ι : Type} {f : ι → (κ → Attempt β) → Attempt α} {l : List ι}
    (h : ∀ i ∈ l, Calls I strict (f i)) : Calls I strict fun sub => l.mapM fun i => f i sub := by
  induction l with
  | nil =>
    simp only [List.mapM_nil]
    exact pure _
  | cons i l ih =>
    simp only [List.mapM_cons]
    refine (h i (List.mem_cons_self ..)).bind fun a => ?_
    exact (ih fun j hj => h j (List.mem_cons_of_mem i hj)).bind fun as => pure _

end Calls

/-- What a computation comes to when its calls have known results. -/
def valueWith (p : (κ → Attempt β) → Attempt α) (o : κ → Except Halt β) : Except Halt α :=
  (p fun x => ExceptT.mk (.done (o x))).run.fresh

section Values

variable {strict : Bool} {p : (κ → Attempt β) → Attempt α} {o o' : κ → Except Halt β}

@[simp] theorem valueWith_known (a : Attempt α) : valueWith (fun _ => a) o = a.run.fresh := rfl

@[simp] theorem valueWith_call (x : κ) : valueWith (fun sub => sub x) o = o x := rfl

@[simp] theorem valueWith_bind (p : (κ → Attempt β) → Attempt α)
    (q : α → (κ → Attempt β) → Attempt γ) :
    valueWith (fun sub => p sub >>= fun a => q a sub) o =
      valueWith p o >>= fun a => valueWith (q a) o :=
  fresh_bind_run _ _

@[simp] theorem valueWith_through (p : (κ → Attempt β) → Attempt α)
    (g : Except Halt α → Except Halt γ) :
    valueWith (fun sub => ExceptT.mk (g <$> (p sub).run)) o = g (valueWith p o) :=
  fresh_map _ _

/-- Without a memory, only the results of the calls matter. -/
theorem Calls.fresh_eq (hp : Calls I strict p) (sub : κ → Attempt β) :
    (p sub).run.fresh = valueWith p fun x => (sub x).run.fresh := by
  induction hp with
  | known h => rfl
  | call x => rfl
  | bind hp hq ihp ihq => rw [fresh_bind_run, ihp, valueWith_bind]; simp only [ihq]
  | through hp hend hstrict ih => rw [ExceptT.run_mk, fresh_map, ih, valueWith_through]

/-- With more successful calls, a success of a strict computation stays the same. -/
theorem Calls.mono_ok (hp : Calls I true p) (ho : ∀ x b, o x = .ok b → o' x = .ok b) {a : α}
    (h : valueWith p o = .ok a) : valueWith p o' = .ok a := by
  induction hp with
  | known => exact h
  | call x => exact ho x _ h
  | @bind α γ p q hp hq ihp ihq =>
    rw [valueWith_bind] at h ⊢
    obtain ⟨b, hb, h⟩ := Except.exists_of_bind_ok h
    rw [ihp hb]
    exact ihq b h
  | @through α γ p g hp hend hstrict ih =>
    rw [valueWith_through] at h ⊢
    cases hv : valueWith p o with
    | ok b => rwa [ih hv, ← hv]
    | error e =>
      obtain ⟨e', he'⟩ := hstrict rfl e
      rw [hv, he'] at h
      cases h

/-- With more calls that end, a computation that ends comes to the same. -/
theorem Calls.mono (hp : Calls I strict p) (ho : ∀ x, o x ≠ .error .endless → o' x = o x)
    (h : valueWith p o ≠ .error .endless) : valueWith p o' = valueWith p o := by
  induction hp with
  | known => rfl
  | call x => exact ho x h
  | @bind α γ p q hp hq ihp ihq =>
    rw [valueWith_bind] at h ⊢
    have hpo : valueWith p o ≠ .error .endless := by
      intro hv
      rw [hv] at h
      exact h rfl
    rw [valueWith_bind, ihp hpo]
    cases hv : valueWith p o with
    | ok b =>
      rw [hv] at h
      exact ihq b h
    | error e => rfl
  | @through α γ p g hp hend hstrict ih =>
    rw [valueWith_through] at h ⊢
    rw [valueWith_through, ih fun hv => h ((hend _).2 hv)]

end Values

/-! ### Growing results -/

/-- Results for growing bounds of which none changes once it is a success. -/
def Grows (F : Nat → κ → Except Halt β) : Prop :=
  ∀ k x b, F k x = .ok b → F (k + 1) x = .ok b

/-- Results for growing bounds of which none changes once there is one. -/
def Lasts (g : Nat → Except Halt α) : Prop :=
  ∀ k, g k ≠ .error .endless → g (k + 1) = g k

theorem Grows.le {F : Nat → κ → Except Halt β} (hF : Grows F) {k k' : Nat} (hk : k ≤ k') {x : κ}
    {b : β} (h : F k x = .ok b) : F k' x = .ok b := by
  induction hk with
  | refl => exact h
  | step _ ih => exact hF _ x b ih

theorem Lasts.le {g : Nat → Except Halt α} (hg : Lasts g) {k k' : Nat} (hk : k ≤ k')
    (h : g k ≠ .error .endless) : g k' = g k := by
  induction hk with
  | refl => rfl
  | step _ ih => exact (hg _ (ih ▸ h)).trans ih

/-- Two results are the same. -/
theorem Lasts.eq {g : Nat → Except Halt α} (hg : Lasts g) {k k' : Nat}
    (h : g k ≠ .error .endless) (h' : g k' ≠ .error .endless) : g k = g k' := by
  rcases Nat.le_total k k' with hk | hk
  · exact (hg.le hk h).symm
  · exact hg.le hk h'

/-- A result that growing bounds come to, which runs on without end only if the bound `n` is too
small. -/
def Settled (g : Nat → Except Halt α) (n : Nat) (r : Except Halt α) : Prop :=
  (r ≠ .error .endless ∧ ∃ k, g k = r) ∨ (r = .error .endless ∧ g n = .error .endless)

theorem settled_self (g : Nat → Except Halt α) (n : Nat) : Settled g n (g n) := by
  by_cases h : g n = .error .endless
  · exact .inr ⟨h, h⟩
  · exact .inl ⟨h, n, rfl⟩

theorem Settled.of_const {r r' : Except Halt α} {n : Nat} (h : Settled (fun _ => r') n r) :
    r = r' := by
  rcases h with ⟨-, _, h⟩ | ⟨rfl, h⟩
  · exact h.symm
  · exact h.symm

/-- A result for a bound is one for the next bound of what is the same with one more. -/
theorem Settled.succ {g g' : Nat → Except Halt α} {n : Nat} {r : Except Halt α}
    (h : Settled g n r) (hg : ∀ k, g' (k + 1) = g k) : Settled g' (n + 1) r := by
  rcases h with ⟨hr, k, hk⟩ | ⟨hr, hn⟩
  · exact .inl ⟨hr, k + 1, (hg k).trans hk⟩
  · exact .inr ⟨hr, (hg n).trans hn⟩

/-- A failure of the first part is a failure of both. -/
theorem Settled.bind_error {g : Nat → Except Halt α} {g' : α → Nat → Except Halt γ} {n : Nat}
    {e : Halt} (h : Settled g n (.error e)) :
    Settled (fun k => g k >>= fun a => g' a k) n (.error e) := by
  rcases h with ⟨hne, k, hk⟩ | ⟨he, hn⟩
  · refine .inl ⟨fun h => hne (by cases h; rfl), k, ?_⟩
    show (g k >>= fun a => g' a k) = _
    rw [hk]
    rfl
  · cases he
    refine .inr ⟨rfl, ?_⟩
    show (g n >>= fun a => g' a n) = _
    rw [hn]
    rfl

/-- Behind a success of the first part the result is that of the second. -/
theorem Settled.bind_ok {g : Nat → Except Halt α} {g' : α → Nat → Except Halt γ} (hg : Lasts g)
    (hg' : ∀ a, Lasts (g' a)) {k n : Nat} {a : α} (hk : g k = .ok a) {r : Except Halt γ}
    (h : Settled (g' a) n r) : Settled (fun k => g k >>= fun a => g' a k) n r := by
  have hok : g k ≠ .error .endless := by
    rw [hk]
    exact nofun
  rcases h with ⟨hne, j, rfl⟩ | ⟨rfl, hn⟩
  · refine .inl ⟨hne, max k j, ?_⟩
    show (g (max k j) >>= fun a => g' a (max k j)) = _
    rw [hg.le (Nat.le_max_left k j) hok, hk]
    exact (hg' a).le (Nat.le_max_right k j) hne
  · refine .inr ⟨rfl, ?_⟩
    show (g n >>= fun a => g' a n) = _
    by_cases hend : g n = .error .endless
    · rw [hend]
      rfl
    · rw [hg.eq hend hok, hk]
      exact hn

/-- An answer is remembered in keeping with the results that are settled, if the answers that meet
the condition are the successes among these. -/
theorem settled_remember {q : Query} {compute : Attempt q.Answer}
    {g : Nat → Except Halt q.Answer} {n : Nat}
    (hq : ∀ a, I q a ↔ ∃ k, g k = .ok a) (h : Ensures I compute.run (Settled g n)) :
    Ensures I (remember q compute).run (Settled g n) := by
  have hknown {a : q.Answer} (ha : I q a) : Settled g n (.ok a) :=
    .inl ⟨nofun, (hq a).1 ha⟩
  refine ⟨?_, fun a ha => hknown ha⟩
  refine Ensures.bind (c := compute.run) h fun r hr => ?_
  cases r with
  | ok a =>
    obtain ⟨-, hsome⟩ := hr.resolve_right fun h => nomatch h.1
    exact ⟨(hq a).2 hsome, fun b hb => hknown hb⟩
  | error e => exact hr

/-- An answer is remembered as it is computed, if it is the one that meets the condition. -/
theorem transparent_remember {q : Query} {compute : Attempt q.Answer}
    (hq : ∀ a, I q a ↔ compute.run.fresh = .ok a) (h : Transparent I compute) :
    Transparent I (remember q compute) := by
  have hsettled := settled_remember (g := fun _ => compute.run.fresh) (n := 0)
    (fun a => (hq a).trans ⟨fun h => ⟨0, h⟩, fun ⟨_, h⟩ => h⟩)
    (h.mono fun r hr => hr ▸ settled_self (fun _ => compute.run.fresh) 0)
  rw [Transparent, fresh_remember]
  exact hsettled.mono fun r hr => hr.of_const

section Growing

variable {strict : Bool} {p : (κ → Attempt β) → Attempt α} {F G : Nat → κ → Except Halt β}

/-- A call that succeeds whenever the whole computation does. -/
def Follows (F : Nat → κ → Except Halt β) (p : (κ → Attempt β) → Attempt α) (x : κ) : Prop :=
  ∀ k a, valueWith p (F k) = .ok a → ∃ b, F k x = .ok b

/-- The successes of a strict computation for all bounds are the same. -/
theorem Calls.agree (hp : Calls I true p) (hF : Grows F) {k k' : Nat} {a a' : α}
    (h : valueWith p (F k) = .ok a) (h' : valueWith p (F k') = .ok a') : a = a' := by
  have hmax {k : Nat} {a : α} (k' : Nat) (h : valueWith p (F k) = .ok a) :
      valueWith p (F (max k k')) = .ok a :=
    hp.mono_ok (fun x b hb => hF.le (Nat.le_max_left ..) hb) h
  have heq := (hmax k' h).symm.trans (Nat.max_comm k k' ▸ hmax k h')
  exact Except.ok.inj heq

theorem Calls.lasts (hp : Calls I strict p) (hG : ∀ x, Lasts fun k => G k x) :
    Lasts fun k => valueWith p (G k) :=
  fun k h => hp.mono (fun x hx => hG x k hx) h

/-- A success is caught up with by any results that agree on the calls that are made. -/
theorem Calls.catch_up (hp : Calls I true p) (hF : Grows F) {k : Nat} {a : α}
    (h : valueWith p (F k) = .ok a) {o : κ → Except Halt β}
    (ho : ∀ x, Follows F p x → ∀ b, F k x = .ok b → o x = .ok b) : valueWith p o = .ok a := by
  induction hp with
  | known => exact h
  | call x => exact ho x (fun k a hk => ⟨a, hk⟩) a h
  | @bind α γ p q hp hq ihp ihq =>
    rw [valueWith_bind] at h ⊢
    obtain ⟨b, hb, h⟩ := Except.exists_of_bind_ok h
    have hpo : valueWith p o = .ok b := by
      refine ihp hb fun x hx => ho x fun j c hj => ?_
      rw [valueWith_bind] at hj
      obtain ⟨b', hb', -⟩ := Except.exists_of_bind_ok hj
      exact hx j b' hb'
    rw [hpo]
    refine ihq b h fun x hx => ho x fun j c hj => ?_
    rw [valueWith_bind] at hj
    obtain ⟨b', hb', hj⟩ := Except.exists_of_bind_ok hj
    cases hp.agree hF hb hb'
    exact hx j c hj
  | @through α γ p g hp hend hstrict ih =>
    rw [valueWith_through] at h ⊢
    have hsuccess {k : Nat} {c : γ} (hk : g (valueWith p (F k)) = .ok c) :
        ∃ b, valueWith p (F k) = .ok b := by
      cases hv : valueWith p (F k) with
      | ok b => exact ⟨b, rfl⟩
      | error e =>
        obtain ⟨e', he'⟩ := hstrict rfl e
        rw [hv, he'] at hk
        cases hk
    obtain ⟨b, hb⟩ := hsuccess h
    have hpo : valueWith p o = .ok b := by
      refine ih hb fun x hx => ho x fun j c hj => ?_
      rw [valueWith_through] at hj
      obtain ⟨b', hb'⟩ := hsuccess hj
      exact hx j b' hb'
    rwa [hpo, ← hb]

/-- **With a memory, a computation comes to what it comes to without one**, if the calls that it
makes do. Of a strict computation the calls that it makes follow it, in the growing results `F` that
have the successes of `G`. -/
theorem Calls.settled (hp : Calls I strict p) (hG : ∀ x, Lasts fun k => G k x) (hF : Grows F)
    (hGF : ∀ k, ∃ j, ∀ x b, G k x = .ok b → F j x = .ok b) {n : Nat} {sub : κ → Attempt β}
    (hsub : ∀ x, (strict = true → Follows F p x) →
      Ensures I (sub x).run (Settled (fun k => G k x) n)) :
    Ensures I (p sub).run (Settled (fun k => valueWith p (G k)) n) := by
  induction hp with
  | @known α a h => exact Ensures.mono h fun r hr => hr ▸ settled_self (fun _ => a.run.fresh) n
  | call x => exact hsub x fun _ k a hk => ⟨a, hk⟩
  | @bind α γ p q hp hq ihp ihq =>
    have hfirst := ihp fun x hx => hsub x fun hs j c hj => by
      rw [valueWith_bind] at hj
      obtain ⟨b, hb, -⟩ := Except.exists_of_bind_ok hj
      exact hx hs j b hb
    refine Ensures.bind (c := (p sub).run) (f := ExceptT.bindCont fun a => q a sub) hfirst
      fun r hr => ?_
    simp only [valueWith_bind]
    cases r with
    | error e => exact hr.bind_error
    | ok a =>
      obtain ⟨-, k, hk⟩ := hr.resolve_right fun h => nomatch h.1
      have hsecond := ihq a fun x hx => hsub x fun hs j c hj => by
        -- A success of the first part for `F` is the one that it has come to for `G`.
        subst hs
        rw [valueWith_bind] at hj
        obtain ⟨b, hb, hj⟩ := Except.exists_of_bind_ok hj
        obtain ⟨i, hi⟩ := hGF k
        cases hp.agree hF hb (hp.mono_ok hi hk)
        exact hx rfl j c hj
      exact hsecond.mono fun r hr => hr.bind_ok (hp.lasts hG) (fun a => (hq a).lasts hG) hk
  | @through α γ p g hp hend hstrict ih =>
    have hinner := ih fun x hx => hsub x fun hs j c hj => by
      rw [valueWith_through] at hj
      cases hv : valueWith p (F j) with
      | ok b => exact hx hs j b hv
      | error e =>
        obtain ⟨e', he'⟩ := hstrict hs e
        rw [hv, he'] at hj
        cases hj
    simp only [valueWith_through]
    refine Ensures.map (hinner.mono fun r hr => ?_)
    rcases hr with ⟨hne, k, hk⟩ | ⟨rfl, hn⟩
    · exact .inl ⟨fun h => hne ((hend r).1 h), k, congrArg g hk⟩
    · exact .inr ⟨(hend _).2 rfl, (hend _).2 hn⟩

/-- A computation needs no memory if the calls that it makes need none. -/
theorem Calls.transparent_of_follows (hp : Calls I strict p) (hF : Grows F)
    {sub : κ → Attempt β} (hsuccess : ∃ j, ∀ x b, (sub x).run.fresh = .ok b → F j x = .ok b)
    (hsub : ∀ x, (strict = true → Follows F p x) → Transparent I (sub x)) :
    Transparent I (p sub) := by
  have hsettled := hp.settled (G := fun _ x => (sub x).run.fresh) (n := 0) (fun _ _ _ => rfl) hF
    (fun _ => hsuccess) fun x hx => (hsub x hx).mono fun r hr =>
      hr ▸ settled_self (fun _ => (sub x).run.fresh) 0
  rw [Transparent, hp.fresh_eq]
  exact hsettled.mono fun r hr => hr.of_const

/-- A computation needs no memory if its calls need none. -/
theorem Calls.transparent_apply (hp : Calls I strict p) {sub : κ → Attempt β}
    (hsub : ∀ x, Transparent I (sub x)) : Transparent I (p sub) :=
  hp.transparent_of_follows (F := fun _ x => (sub x).run.fresh) (fun _ _ _ h => h)
    ⟨0, fun _ _ h => h⟩ fun x _ => hsub x

end Growing

end TypedSheets.Recall
