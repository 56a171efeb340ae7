import KodyCelld.Lib.Js

namespace KodyCelld.Lib

/-!
# Following redirects by hand

A client checks a URL, asks for it and, where the answer sends it elsewhere, checks that URL and asks
again, a bounded number of times.

* `Chain` — the URLs that were asked for, in order, and what came of it;
* `follow` — the loop, from a URL that has passed the check;
* `request` — the client: the check of the first URL, then the loop;
* `request_passed`, `request_length`, `request_linked` — each URL asked for has passed, there are no
  more of them than rounds, and each after the first is where the answer to the one before it led.

The answer to a URL may depend on all that was asked for before it.
-/

/-- What a client did: the URLs it asked for, and its result. -/
structure Chain (ε α : Type) where
  sent : List Text
  result : Except ε α

section
variable {ε α : Type}

/-- One client: what a URL must pass, and what it reads from the answer to a URL, which is where to
    go next or the result. -/
structure Client (ε α : Type) where
  check : Text → Except ε Text
  ask : (sent : List Text) → (current : Text) → Except ε (Text ⊕ α)
  tooMany : ε

/-- The loop, `rounds` being the requests that are left. -/
def follow (k : Client ε α) : (rounds : ℕ) → (sent : List Text) → (current : Text) → Chain ε α
  | 0, sent, _ => ⟨sent, .error k.tooMany⟩
  | rounds + 1, sent, current =>
    match k.ask sent current with
    | .error e => ⟨sent ++ [current], .error e⟩
    | .ok (.inr value) => ⟨sent ++ [current], .ok value⟩
    | .ok (.inl location) =>
      match k.check location with
      | .error e => ⟨sent ++ [current], .error e⟩
      | .ok next => follow k rounds (sent ++ [current]) next

/-- The client from its first URL on. -/
def request (k : Client ε α) (rounds : ℕ) (raw : Text) : Chain ε α :=
  match k.check raw with
  | .error e => ⟨[], .error e⟩
  | .ok first => follow k rounds [] first

/-- The URL came out of the check. -/
def Client.Passed (k : Client ε α) (url : Text) : Prop := ∃ raw, k.check raw = .ok url

/-- The second URL is where the answer to the first one led. -/
def Client.Leads (k : Client ε α) (sent : List Text) (url next : Text) : Prop :=
  ∃ location, k.ask sent url = .ok (.inl location) ∧ k.check location = .ok next

variable {k : Client ε α} {rounds : ℕ} {sent : List Text} {current raw : Text}

/-- What every request of the loop has in common: the invariant holds of the URLs asked for together
    with the next one, and a redirect keeps it. -/
theorem follow_invariant {Inv : List Text → Prop} (hshort : ∀ sent url, Inv (sent ++ [url]) → Inv sent)
    (hnext : ∀ sent url next, Inv (sent ++ [url]) → k.Leads sent url next →
      Inv (sent ++ [url] ++ [next]))
    (h : Inv (sent ++ [current])) : Inv (follow k rounds sent current).sent := by
  induction rounds generalizing sent current with
  | zero => exact hshort sent current h
  | succ rounds ih =>
    unfold follow
    split
    · exact h
    · exact h
    · rename_i location hask
      split
      · exact h
      · rename_i next hcheck
        exact ih (hnext sent current next h ⟨location, hask, hcheck⟩)

theorem follow_length : (follow k rounds sent current).sent.length ≤ sent.length + rounds := by
  induction rounds generalizing sent current with
  | zero => exact le_rfl
  | succ rounds ih =>
    have hone : (sent ++ [current]).length = sent.length + 1 := List.length_append
    unfold follow
    split
    · show (sent ++ [current]).length ≤ _
      omega
    · show (sent ++ [current]).length ≤ _
      omega
    · split
      · show (sent ++ [current]).length ≤ _
        omega
      · refine ih.trans ?_
        omega

/-- The loop only adds to what was asked for, and goes on with the current URL. -/
theorem follow_prefix : sent ++ [current] <+: (follow k (rounds + 1) sent current).sent := by
  induction rounds generalizing sent current with
  | zero =>
    unfold follow
    split
    · exact List.prefix_rfl
    · exact List.prefix_rfl
    · split
      · exact List.prefix_rfl
      · exact List.prefix_rfl
  | succ rounds ih =>
    rw [follow]
    split
    · exact List.prefix_rfl
    · exact List.prefix_rfl
    · split
      · exact List.prefix_rfl
      · exact (List.prefix_append _ _).trans ih

theorem request_eq {first : Text} (h : k.check raw = .ok first) :
    request k rounds raw = follow k rounds [] first := by
  unfold request
  rw [h]

/-- A client whose first URL does not pass asks for nothing. -/
theorem request_refused {e : ε} (h : k.check raw = .error e) :
    request k rounds raw = ⟨[], .error e⟩ := by
  unfold request
  rw [h]

/-- **Each URL that is asked for has passed the check.** -/
theorem request_passed : ∀ url ∈ (request k rounds raw).sent, k.Passed url := by
  cases hcheck : k.check raw with
  | error e =>
    rw [request_refused hcheck]
    nofun
  | ok first =>
    rw [request_eq hcheck]
    have hinvariant := @follow_invariant ε α k rounds [] first fun all => ∀ url ∈ all, k.Passed url
    apply hinvariant
    · intro sent url hall other hmem
      exact hall other (List.mem_append_left _ hmem)
    · rintro sent url next hall ⟨location, -, hpassed⟩ other hmem
      rcases List.mem_append.mp hmem with hold | hnew
      · exact hall other hold
      · rw [List.mem_singleton.mp hnew]
        exact ⟨location, hpassed⟩
    · intro url hmem
      rw [List.mem_singleton.mp hmem]
      exact ⟨raw, hcheck⟩

/-- **No more requests than rounds.** -/
theorem request_length : (request k rounds raw).sent.length ≤ rounds := by
  cases hcheck : k.check raw with
  | error e =>
    rw [request_refused hcheck]
    exact Nat.zero_le _
  | ok first =>
    rw [request_eq hcheck]
    have hlength : (follow k rounds [] first).sent.length ≤ ([] : List Text).length + rounds :=
      follow_length
    simpa using hlength

/-- The first URL asked for is what the check made of the given one. -/
theorem request_first {url : Text} (h : (request k rounds raw).sent.head? = some url) :
    k.check raw = .ok url := by
  cases hcheck : k.check raw with
  | error e =>
    rw [request_refused hcheck] at h
    cases h
  | ok first =>
    rw [request_eq hcheck] at h
    cases rounds with
    | zero => cases h
    | succ rounds =>
      have hstart : [] ++ [first] <+: (follow k (rounds + 1) [] first).sent := follow_prefix
      rw [List.nil_append, List.singleton_prefix_iff_head?_eq_some] at hstart
      rw [hstart] at h
      rw [Option.some.inj h]

/-- **Each later URL is where the answer to the one before it led.** -/
theorem request_linked {before : List Text} {url next : Text}
    (h : before ++ [url, next] <+: (request k rounds raw).sent) : k.Leads before url next := by
  revert before url next
  cases hcheck : k.check raw with
  | error e =>
    rw [request_refused hcheck]
    intro before url next h
    have hle := h.length_le
    simp at hle
  | ok first =>
    rw [request_eq hcheck]
    have hinvariant := @follow_invariant ε α k rounds [] first fun all => ∀ before url next,
      before ++ [url, next] <+: all → k.Leads before url next
    intro before url next
    refine hinvariant ?_ ?_ ?_ before url next
    · intro sent url hall before url' next hpre
      exact hall _ _ _ (hpre.trans (List.prefix_append sent [url]))
    · intro sent url next hall hleads before url' next' hpre
      rcases List.prefix_concat_iff.mp hpre with heq | hold
      · -- the new link
        rw [List.append_cons] at heq
        obtain ⟨hfront, hnext⟩ := List.append_inj' heq rfl
        obtain ⟨rfl, hurl⟩ := List.append_inj' hfront rfl
        obtain rfl := List.singleton_inj.mp hnext
        obtain rfl := List.singleton_inj.mp hurl
        exact hleads
      · exact hall _ _ _ hold
    · intro before url next hpre
      have hle := hpre.length_le
      simp at hle

end

end KodyCelld.Lib
