import KodyCelld.Lib.Js

namespace KodyCelld.Lib

/-!
# Texts joined by a separator

Joining forgets where one text ends when the separator also stands inside a text.

* `splitOn_join` — the pieces of joined texts are their pieces;
* `join_eq_iff` — two lists of texts are joined to one text exactly if their pieces are the same.
-/

variable {sep : Char}

/-- Texts cut at every separator. -/
def cut (sep : Char) (texts : List Text) : List Text := texts.flatMap fun text => text.splitOn sep

/-- Texts joined by a separator. -/
def join (sep : Char) (texts : List Text) : Text := [sep].intercalate texts

theorem splitOn_join {texts : List Text} (hne : texts ≠ []) :
    (join sep texts).splitOn sep = cut sep texts := by
  induction texts with
  | nil => exact absurd rfl hne
  | cons text rest ih =>
    cases rest with
    | nil => simp [join, cut, List.intercalate]
    | cons next rest =>
      have hjoin : join sep (text :: next :: rest) = text ++ sep :: join sep (next :: rest) := by
        rw [join, List.intercalate_cons_cons, join]
        simp
      rw [hjoin, List.splitOn_append_cons_self, ih (List.cons_ne_nil _ _)]
      rfl

/-- Joined texts start with the first one. -/
theorem prefix_join (text : Text) (rest : List Text) : text <+: join sep (text :: rest) := by
  cases rest with
  | nil => simp [join, List.intercalate]
  | cons next rest =>
    rw [join, List.intercalate_cons_cons, List.append_assoc]
    exact List.prefix_append _ _

/-- Texts that follow others are joined behind one separator. -/
theorem join_append {as bs : List Text} (has : as ≠ []) (hbs : bs ≠ []) :
    join sep (as ++ bs) = join sep as ++ sep :: join sep bs := by
  induction as with
  | nil => exact absurd rfl has
  | cons a as ih =>
    cases as with
    | nil =>
      obtain ⟨b, bs, rfl⟩ := List.exists_cons_of_ne_nil hbs
      simp [join, List.intercalate]
    | cons next as =>
      have hcons : ∀ rest : List Text, join sep (a :: next :: rest) =
          a ++ sep :: join sep (next :: rest) := by
        intro rest
        rw [join, List.intercalate_cons_cons, join]
        simp
      have htail := ih (List.cons_ne_nil next as)
      rw [List.cons_append] at htail
      rw [List.cons_append, List.cons_append, hcons, hcons, htail]
      simp

/-- The first texts are joined to what the text starts with. -/
theorem join_take (texts : List Text) {k : ℕ} (hk : 0 < k) :
    ∃ tail, join sep texts = join sep (texts.take k) ++ tail := by
  by_cases hrest : texts.drop k = []
  · rw [List.take_of_length_le (List.drop_eq_nil_iff.mp hrest)]
    exact ⟨[], (List.append_nil _).symm⟩
  · have htake : texts.take k ≠ [] := by
      intro hnil
      rcases List.take_eq_nil_iff.mp hnil with hzero | hnil
      · omega
      · exact hrest (by rw [hnil, List.drop_nil])
    have hjoin := @join_append sep _ _ htake hrest
    rw [List.take_append_drop] at hjoin
    exact ⟨_, hjoin⟩

/-- **What joining forgets**: two lists of texts are joined to one text exactly if they are the same
    when they are cut at every separator. -/
theorem join_eq_iff {as bs : List Text} (has : as ≠ []) (hbs : bs ≠ []) :
    join sep as = join sep bs ↔ cut sep as = cut sep bs := by
  rw [← splitOn_join has, ← splitOn_join hbs]
  refine ⟨fun h => by rw [h], fun h => ?_⟩
  have hback := congrArg (List.intercalate [sep]) h
  rw [List.intercalate_splitOn, List.intercalate_splitOn] at hback
  exact hback

/-- Texts without the separator are their own pieces. -/
theorem cut_eq_self {texts : List Text} (h : ∀ text ∈ texts, sep ∉ text) :
    cut sep texts = texts := by
  induction texts with
  | nil => rfl
  | cons text rest ih =>
    show text.splitOn sep ++ cut sep rest = text :: rest
    rw [List.splitOn_eq_singleton (h text List.mem_cons_self),
      ih fun t ht => h t (List.mem_cons_of_mem _ ht)]
    rfl

/-- A separator that the front texts do not hold parts two texts in one way. -/
theorem append_cons_inj {a b c d : Text} (ha : sep ∉ a) (hc : sep ∉ c) :
    a ++ sep :: b = c ++ sep :: d ↔ a = c ∧ b = d := by
  constructor
  · intro h
    induction a generalizing c with
    | nil =>
      cases c with
      | nil => exact ⟨rfl, (List.cons.inj h).2⟩
      | cons e c => exact absurd ((List.cons.inj h).1 ▸ List.mem_cons_self) hc
    | cons e a ih =>
      cases c with
      | nil => exact absurd ((List.cons.inj h).1 ▸ List.mem_cons_self) ha
      | cons f c =>
        obtain ⟨rfl, htail⟩ := List.cons.inj h
        obtain ⟨rfl, rfl⟩ := ih (fun hm => ha (List.mem_cons_of_mem _ hm))
          (fun hm => hc (List.mem_cons_of_mem _ hm)) htail
        exact ⟨rfl, rfl⟩
  · rintro ⟨rfl, rfl⟩
    rfl

end KodyCelld.Lib
