import Mathlib

namespace KodyCelld.Lib

/-!
# Runs of step functions and of cooperative calls

Generic machinery, naming nothing of the repository:

* `Step` / `Reaches` — reachability of a partial step function `step : σ → ε → Option σ` in
  which every step meets a *guard* on the state before it (`fun _ _ => True` for all runs);
* `Reaches.invariant` — the induction packaged once: what one guarded step preserves holds in
  every state a guarded run reaches;
* `exec` — the executable run of a list of events, and `reaches_of_exec` to use it as a run;
* `Coop` — single-threaded cooperative calls over a shared state: a call runs without
  interruption up to its next `await`, and between two such segments any other call may run.
  `Coop.step_cases` and `Coop.step_ran` are the inversion lemmas every invariant proof of such a
  system starts from.
-/

variable {σ ε : Type}

/-- One step of `step` whose event the guard allows in the state before it. -/
def Step (step : σ → ε → Option σ) (guard : σ → ε → Prop) (s s' : σ) : Prop :=
  ∃ e, guard s e ∧ step s e = some s'

/-- Some run whose steps all meet the guard leads from the first state to the second. -/
abbrev Reaches (step : σ → ε → Option σ) (guard : σ → ε → Prop) : σ → σ → Prop :=
  Relation.ReflTransGen (Step step guard)

/-- **Run lemma.** What holds at the start and is kept by every guarded step holds in every
    state reached. -/
theorem Reaches.invariant {step : σ → ε → Option σ} {guard : σ → ε → Prop} (Inv : σ → Prop)
    (hstep : ∀ s e s', Inv s → guard s e → step s e = some s' → Inv s')
    {s t : σ} (h : Reaches step guard s t) (h0 : Inv s) : Inv t := by
  induction h with
  | refl => exact h0
  | tail _ hlast ih =>
    obtain ⟨e, hg, he⟩ := hlast
    exact hstep _ e _ ih hg he

/-- A weaker guard allows more runs. -/
theorem Reaches.mono {step : σ → ε → Option σ} {g g' : σ → ε → Prop}
    (hg : ∀ s e, g s e → g' s e) {s t : σ} (h : Reaches step g s t) : Reaches step g' s t := by
  refine Relation.ReflTransGen.mono ?_ s t h
  rintro a b ⟨e, hge, he⟩
  exact ⟨e, hg a e hge, he⟩

/-- The executable run: fold the events through `step`, stopping at the first refused one. -/
def exec (step : σ → ε → Option σ) : σ → List ε → Option σ
  | s, [] => some s
  | s, e :: es =>
    match step s e with
    | none => none
    | some s' => exec step s' es

/-- An executed list of events is a run of the system. -/
theorem reaches_of_exec {step : σ → ε → Option σ} {s t : σ} {es : List ε}
    (h : exec step s es = some t) : Reaches step (fun _ _ => True) s t := by
  induction es generalizing s with
  | nil =>
    rw [exec, Option.some.injEq] at h
    rw [h]
  | cons e es ih =>
    rw [exec] at h
    split at h
    · exact absurd h (by simp)
    rename_i s' he
    exact Relation.ReflTransGen.head ⟨e, trivial, he⟩ (ih h)

/-- An executed list of events whose guards can be decided along the way. -/
def execGuarded (step : σ → ε → Option σ) (guard : σ → ε → Bool) : σ → List ε → Option σ
  | s, [] => some s
  | s, e :: es =>
    if guard s e then
      match step s e with
      | none => none
      | some s' => execGuarded step guard s' es
    else none

/-- An executed list of guarded events is a guarded run. -/
theorem reaches_of_execGuarded {step : σ → ε → Option σ} {guard : σ → ε → Bool}
    {G : σ → ε → Prop} (hG : ∀ s e, guard s e = true → G s e) {s t : σ} {es : List ε}
    (h : execGuarded step guard s es = some t) : Reaches step G s t := by
  induction es generalizing s with
  | nil =>
    rw [execGuarded, Option.some.injEq] at h
    rw [h]
  | cons e es ih =>
    rw [execGuarded] at h
    split at h
    · rename_i hg
      split at h
      · exact absurd h (by simp)
      rename_i s' he
      exact Relation.ReflTransGen.head ⟨e, hG s e hg, he⟩ (ih h)
    · exact absurd h (by simp)

/-- A run whose guards were checked is a run. -/
theorem exec_of_execGuarded {step : σ → ε → Option σ} {guard : σ → ε → Bool} {s t : σ} {es : List ε}
    (h : execGuarded step guard s es = some t) : exec step s es = some t := by
  induction es generalizing s with
  | nil => exact h
  | cons e es ih =>
    rw [execGuarded] at h
    rw [exec]
    split at h
    · split at h
      · cases h
      · exact ih h
    · cases h

/-! ### Cooperative calls -/

/-- A family of `async` operations over one shared state.  `start` gives the frame of a call
    that has been made and not yet run; `resume` runs a frame to its next `await` (a new frame)
    or to its return, given what the outside world supplies there (a clock reading, a random
    value, a network reply).  `none` means that the frame cannot run yet. -/
structure Coop where
  Shared : Type
  Call : Type
  Frame : Type
  Input : Type
  Ret : Type
  start : Call → Frame
  resume : Shared → Frame → Input → Option (Shared × (Frame ⊕ Ret))

namespace Coop

/-- The shared state, the calls in flight by thread, and the calls that returned (latest
    first). -/
structure Config (C : Coop) where
  shared : C.Shared
  pool : ℕ → Option (C.Call × C.Frame)
  log : List (C.Call × C.Ret)

/-- What can happen next: a call is made, or a call in flight runs one segment. -/
inductive Event (C : Coop) where
  | call (t : ℕ) (c : C.Call)
  | resume (t : ℕ) (i : C.Input)

variable {C : Coop}

/-- One step of the system: threads are never reused while their call is in flight. -/
def step (g : Config C) : Event C → Option (Config C)
  | .call t c =>
    match g.pool t with
    | some _ => none
    | none => some { g with pool := Function.update g.pool t (some (c, C.start c)) }
  | .resume t i =>
    match g.pool t with
    | none => none
    | some (c, f) =>
      match C.resume g.shared f i with
      | none => none
      | some (s', .inl f') =>
        some { g with shared := s', pool := Function.update g.pool t (some (c, f')) }
      | some (s', .inr r) =>
        some { shared := s', pool := Function.update g.pool t none, log := (c, r) :: g.log }

/-- Nothing in flight and nothing returned yet. -/
def idle (s : C.Shared) : Config C := { shared := s, pool := fun _ => none, log := [] }

/-- **Inversion.** A step makes a call on a free thread, runs a call to its next `await`, or
    runs a call to its return; nothing else changes. -/
theorem step_cases {g g' : Config C} {e : Event C} (h : step g e = some g') :
    (∃ t c, e = .call t c ∧ g.pool t = none ∧
      g' = { g with pool := Function.update g.pool t (some (c, C.start c)) }) ∨
    (∃ t i c f s' f', e = .resume t i ∧ g.pool t = some (c, f) ∧
      C.resume g.shared f i = some (s', .inl f') ∧
      g' = { g with shared := s', pool := Function.update g.pool t (some (c, f')) }) ∨
    (∃ t i c f s' r, e = .resume t i ∧ g.pool t = some (c, f) ∧
      C.resume g.shared f i = some (s', .inr r) ∧
      g' = { shared := s', pool := Function.update g.pool t none, log := (c, r) :: g.log }) := by
  cases e with
  | call t c =>
    simp only [step] at h
    split at h
    · exact absurd h (by simp)
    rename_i hfree
    exact .inl ⟨t, c, rfl, hfree, (Option.some.inj h).symm⟩
  | resume t i =>
    simp only [step] at h
    split at h
    · exact absurd h (by simp)
    rename_i c f hpool
    split at h
    · exact absurd h (by simp)
    · rename_i s' f' hres
      exact .inr (.inl ⟨t, i, c, f, s', f', rfl, hpool, hres, (Option.some.inj h).symm⟩)
    · rename_i s' r hres
      exact .inr (.inr ⟨t, i, c, f, s', r, rfl, hpool, hres, (Option.some.inj h).symm⟩)

/-- The frame of a thread after another thread's slot was written. -/
theorem pool_update_cases {p : ℕ → Option (C.Call × C.Frame)} {t u : ℕ}
    {x : Option (C.Call × C.Frame)} {y : C.Call × C.Frame}
    (h : Function.update p t x u = some y) : (u = t ∧ x = some y) ∨ (u ≠ t ∧ p u = some y) := by
  by_cases hut : u = t
  · subst hut
    rw [Function.update_self] at h
    exact .inl ⟨rfl, h⟩
  · rw [Function.update_of_ne hut] at h
    exact .inr ⟨hut, h⟩

/-- Thread `t` ran one segment of its call, which ended in a new frame or in a return: what became
    of the shared state, of the calls in flight and of those that returned. -/
structure Ran (g g' : Config C) (t : ℕ) (c : C.Call) (f : C.Frame) (i : C.Input)
    (out : C.Frame ⊕ C.Ret) : Prop where
  before : g.pool t = some (c, f)
  runs : C.resume g.shared f i = some (g'.shared, out)
  others : ∀ u, u ≠ t → g'.pool u = g.pool u
  own : (∃ f', out = .inl f' ∧ g'.pool t = some (c, f') ∧ g'.log = g.log) ∨
    ∃ r, out = .inr r ∧ g'.pool t = none ∧ g'.log = (c, r) :: g.log

section
variable {g g' : Config C} {t : ℕ} {c : C.Call} {f : C.Frame} {i : C.Input} {out : C.Frame ⊕ C.Ret}

/-- A call in flight after a segment was in flight before it, or is the one that ran. -/
theorem Ran.pool (h : Ran g g' t c f i out) (u : ℕ) (c' : C.Call) (f' : C.Frame)
    (hu : g'.pool u = some (c', f')) :
    (u ≠ t ∧ g.pool u = some (c', f')) ∨ (u = t ∧ c' = c ∧ out = .inl f') := by
  by_cases hut : u = t
  · subst hut
    rcases h.own with ⟨f₁, hout, hpool, -⟩ | ⟨r, -, hpool, -⟩
    · obtain ⟨rfl, rfl⟩ := Prod.mk.inj (Option.some.inj (hpool.symm.trans hu))
      exact .inr ⟨rfl, rfl, hout⟩
    · exact absurd (hpool.symm.trans hu) (by simp)
  · exact .inl ⟨hut, (h.others u hut).symm.trans hu⟩

/-- An entry of the log is old, or is the return of the call that ran. -/
theorem Ran.log (h : Ran g g' t c f i out) (entry : C.Call × C.Ret) (hentry : entry ∈ g'.log) :
    entry ∈ g.log ∨ (entry.1 = c ∧ out = .inr entry.2) := by
  rcases h.own with ⟨f', -, -, hlog⟩ | ⟨r, hout, -, hlog⟩
  · exact .inl (hlog ▸ hentry)
  · rw [hlog] at hentry
    rcases List.mem_cons.mp hentry with rfl | hold
    · exact .inr ⟨rfl, hout⟩
    · exact .inl hold

end

/-- **Inversion**, with the two ways a segment can end in one. -/
theorem step_ran {g g' : Config C} {e : Event C} (h : step g e = some g') :
    (∃ t c, e = .call t c ∧ g.pool t = none ∧
      g' = { g with pool := Function.update g.pool t (some (c, C.start c)) }) ∨
    ∃ t i c f out, e = .resume t i ∧ Ran g g' t c f i out := by
  rcases step_cases h with hcall | ⟨t, i, c, f, s', f', rfl, hpool, hres, rfl⟩ |
    ⟨t, i, c, f, s', r, rfl, hpool, hres, rfl⟩
  · exact .inl hcall
  · refine .inr ⟨t, i, c, f, .inl f', rfl, hpool, hres, fun u hu => Function.update_of_ne hu .., ?_⟩
    exact .inl ⟨f', rfl, Function.update_self .., rfl⟩
  · refine .inr ⟨t, i, c, f, .inr r, rfl, hpool, hres, fun u hu => Function.update_of_ne hu .., ?_⟩
    exact .inr ⟨r, rfl, Function.update_self .., rfl⟩

/-! ### One call at a time -/

section
variable {κ : Type} {key : C.Frame → Option κ} {g g' : Config C}

/-- No call in flight has the key. -/
def Free (key : C.Frame → Option κ) (g : Config C) (k : κ) : Prop :=
  ∀ t c f, g.pool t = some (c, f) → key f ≠ some k

/-- No two calls in flight have one key. -/
def Unique (key : C.Frame → Option κ) (g : Config C) : Prop :=
  ∀ t u c c' f f' k, g.pool t = some (c, f) → g.pool u = some (c', f') → key f = some k →
    key f' = some k → t = u

/-- A call that has not run yet has no key. -/
theorem Unique.call (h : Unique key g) {t : ℕ} {c : C.Call} (hstart : key (C.start c) = none) :
    Unique key { g with pool := Function.update g.pool t (some (c, C.start c)) } := by
  have hold : ∀ u c' f k, Function.update g.pool t (some (c, C.start c)) u = some (c', f) →
      key f = some k → g.pool u = some (c', f) := by
    intro u c' f k hu hk
    rcases pool_update_cases hu with ⟨-, heq⟩ | ⟨-, hu⟩
    · obtain ⟨-, rfl⟩ := Prod.mk.inj (Option.some.inj heq)
      exact absurd (hstart.symm.trans hk) (by simp)
    · exact hu
  intro u v c₁ c₂ f f' k hu hv hf hf'
  exact h u v c₁ c₂ f f' k (hold u c₁ f k hu hf) (hold v c₂ f' k hv hf') hf hf'

/-- A segment that takes a key only while it is free leaves every key with one call. -/
theorem Unique.ran (h : Unique key g) {t : ℕ} {c : C.Call} {f : C.Frame} {i : C.Input}
    {out : C.Frame ⊕ C.Ret} (hran : Ran g g' t c f i out)
    (hkey : ∀ f' k, out = .inl f' → key f' = some k → key f = some k ∨ Free key g k) :
    Unique key g' := by
  intro u v c₁ c₂ f₁ f₂ k hu hv hf₁ hf₂
  rcases hran.pool u c₁ f₁ hu with ⟨hut, hu⟩ | ⟨rfl, -, hout⟩
  · rcases hran.pool v c₂ f₂ hv with ⟨hvt, hv⟩ | ⟨rfl, -, hout⟩
    · exact h u v c₁ c₂ f₁ f₂ k hu hv hf₁ hf₂
    · rcases hkey f₂ k hout hf₂ with hf | hfree
      · exact h u v c₁ c f₁ f k hu hran.before hf₁ hf
      · exact absurd hf₁ (hfree u c₁ f₁ hu)
  · rcases hran.pool v c₂ f₂ hv with ⟨hvt, hv⟩ | ⟨rfl, -, -⟩
    · rcases hkey f₁ k hout hf₁ with hf | hfree
      · exact h u v c c₂ f f₂ k hran.before hv hf hf₂
      · exact absurd hf₂ (hfree v c₂ f₂ hv)
    · rfl

end

/-! ### One call after the other -/

def Event.thread : Event C → ℕ
  | .call t _ => t
  | .resume t _ => t

/-- A step leaves the other threads alone. -/
theorem pool_of_step {g g' : Config C} {e : Event C} (h : step g e = some g') {u : ℕ}
    (hu : u ≠ e.thread) : g'.pool u = g.pool u := by
  rcases step_cases h with ⟨t, c, rfl, -, rfl⟩ | ⟨t, i, c, f, s', f', rfl, -, -, rfl⟩ |
    ⟨t, i, c, f, s', r, rfl, -, -, rfl⟩
  · exact Function.update_of_ne hu ..
  · exact Function.update_of_ne hu ..
  · exact Function.update_of_ne hu ..

/-- A run leaves the threads alone that it does not use. -/
theorem pool_of_exec {g g' : Config C} {es : List (Event C)} (h : exec step g es = some g') {u : ℕ}
    (hu : ∀ e ∈ es, u ≠ e.thread) : g'.pool u = g.pool u := by
  induction es generalizing g with
  | nil =>
    rw [exec, Option.some.injEq] at h
    rw [h]
  | cons e es ih =>
    rw [exec] at h
    split at h
    · exact absurd h (by simp)
    rename_i g₁ hstep
    have hrest := ih h fun e' he' => hu e' (List.mem_cons_of_mem _ he')
    rw [hrest]
    exact pool_of_step hstep (hu e List.mem_cons_self)

/-- A guard to be checked only where no thread from `N` on is used. -/
def below (N : ℕ) (check : Config C → Event C → Bool) (g : Config C) (e : Event C) : Bool :=
  decide (e.thread < N) && check g e

/-- An executed list of events on the threads below `N`: the guard of each step may count on the
    others to be idle. -/
theorem reaches_of_below {N : ℕ} {check : Config C → Event C → Bool}
    {g g' : Config C} {es : List (Event C)} (hidle : ∀ u, N ≤ u → g.pool u = none)
    (h : execGuarded step (below N check) g es = some g') :
    Reaches step (fun g e => check g e = true ∧ ∀ u, N ≤ u → g.pool u = none) g g' := by
  induction es generalizing g with
  | nil =>
    rw [execGuarded, Option.some.injEq] at h
    rw [h]
  | cons e es ih =>
    rw [execGuarded] at h
    split at h
    · rename_i hguard
      rw [below, Bool.and_eq_true, decide_eq_true_eq] at hguard
      obtain ⟨hthread, hcheck⟩ := hguard
      split at h
      · exact absurd h (by simp)
      rename_i g₁ hstep
      refine Relation.ReflTransGen.head ⟨e, ⟨hcheck, hidle⟩, hstep⟩ (ih (fun u hu => ?_) h)
      rw [pool_of_step hstep (by omega)]
      exact hidle u hu
    · exact absurd h (by simp)

/-- No other call is in flight. -/
def Solo (g : Config C) (e : Event C) : Prop := ∀ u, u ≠ e.thread → g.pool u = none

/-- Where no other call is in flight, a key that this one does not have is free. -/
theorem Solo.free {κ : Type} {key : C.Frame → Option κ} {g : Config C} {e : Event C} {c : C.Call}
    {f : C.Frame} {k : κ} (h : Solo g e) (hpool : g.pool e.thread = some (c, f))
    (hkey : key f = none) : Free key g k := by
  intro u c' f' hu hk
  by_cases hut : u = e.thread
  · obtain ⟨-, rfl⟩ := Prod.mk.inj (Option.some.inj ((hut ▸ hu).symm.trans hpool))
    exact absurd (hkey.symm.trans hk) (by simp)
  · exact absurd ((h u hut).symm.trans hu) (by simp)

/-- The same, where only the threads below `N` are ever used. -/
def soloBelow (N : ℕ) : Config C → Event C → Bool :=
  below N fun g e => (List.range N).all fun u => decide (u = e.thread) || (g.pool u).isNone

/-- An executed list of calls that never overlap is a run of such calls. -/
theorem reaches_of_soloBelow {N : ℕ} {g g' : Config C} {es : List (Event C)}
    (hidle : ∀ u, N ≤ u → g.pool u = none) (h : execGuarded step (soloBelow N) g es = some g') :
    Reaches step Solo g g' := by
  refine (reaches_of_below hidle h).mono fun g e ⟨hothers, hidle⟩ u hu => ?_
  by_cases hN : N ≤ u
  · exact hidle u hN
  · have := List.all_eq_true.mp hothers u (List.mem_range.mpr (Nat.lt_of_not_le hN))
    rw [decide_eq_false hu, Bool.false_or, Option.isNone_iff_eq_none] at this
    exact this

end Coop

end KodyCelld.Lib
