import Mathlib.Data.List.Forall2
import Mathlib.Data.List.Nodup
import Mathlib.Data.List.Pairwise
import Mathlib.Data.List.TakeWhile
import RecipeDesk.Text.Space

/-!
# Lists

What the theory needs of lists, whatever they are lists of: trimming at both ends, searching along
increasing keys, blocks without repetition, and lists that go in step. No text, word or line is
named here.
-/

namespace RecipeDesk

/-! ### Trimming -/

/-- What is trimmed away does not matter. -/
theorem trimBoth_append {p : Char → Bool} {before behind : List Char}
    (hbefore : ∀ c ∈ before, p c = true) (hbehind : ∀ c ∈ behind, p c = true) (cs : List Char) :
    trimBoth p (before ++ (cs ++ behind)) = trimBoth p cs := by
  unfold trimBoth
  rw [List.dropWhile_append_of_pos hbefore, List.dropWhile_append]
  split
  · next hempty =>
      rw [List.isEmpty_iff.mp hempty, List.dropWhile_eq_nil_iff.mpr hbehind]
  · have hreverse : ∀ c ∈ behind.reverse, p c = true := by simpa using hbehind
    rw [List.reverse_append, List.dropWhile_append_of_pos hreverse]

/-- Trimming takes something off both ends. -/
theorem exists_trimmed (p : Char → Bool) (cs : List Char) :
    ∃ before behind, (∀ c ∈ before, p c = true) ∧ (∀ c ∈ behind, p c = true) ∧
      cs = before ++ (trimBoth p cs ++ behind) := by
  have hfront := List.takeWhile_append_dropWhile (p := p) (l := cs)
  have hback := List.takeWhile_append_dropWhile (p := p) (l := (cs.dropWhile p).reverse)
  refine ⟨cs.takeWhile p, ((cs.dropWhile p).reverse.takeWhile p).reverse, ?_, ?_, ?_⟩
  · exact fun _ => List.mem_takeWhile_imp
  · exact fun _ hc => List.mem_takeWhile_imp (List.mem_reverse.mp hc)
  · rw [trimBoth, ← List.reverse_append, hback, List.reverse_reverse, hfront]

/-- The wider trimming does what the narrower one has done before it. -/
theorem trimBoth_trimBoth {p q : Char → Bool} (h : ∀ c, p c = true → q c = true) (cs : List Char) :
    trimBoth q (trimBoth p cs) = trimBoth q cs := by
  obtain ⟨before, behind, hbefore, hbehind, hcs⟩ := exists_trimmed p cs
  have hkept := trimBoth_append (fun c hc => h c (hbefore c hc)) (fun c hc => h c (hbehind c hc))
    (trimBoth p cs)
  rw [← hcs] at hkept
  exact hkept.symm

/-! ### Searching what is in order -/

section Search

variable {α : Type} (key : α → Nat)

/-- Along increasing keys, as many lie below a bound as come before the first that does not. -/
theorem findIdx_eq_countP (bound : Nat) {xs : List α}
    (h : xs.Pairwise fun a b => key a < key b) :
    (xs.findIdx fun x => bound ≤ key x) = xs.countP fun x => key x < bound := by
  induction xs with
  | nil => rfl
  | cons x xs ih =>
      obtain ⟨hx, hxs⟩ := List.pairwise_cons.mp h
      rw [List.findIdx_cons, List.countP_cons]
      by_cases hle : bound ≤ key x
      · have hnone : xs.countP (fun y => decide (key y < bound)) = 0 := by
          rw [List.countP_eq_zero]
          intro y hy
          have hbehind : bound ≤ key y := Nat.le_trans hle (Nat.le_of_lt (hx y hy))
          simpa using hbehind
        simp [hle, hnone]
      · simp [hle, ih hxs, Nat.lt_of_not_le hle]

/-- Along increasing keys, what has a key is found by it. -/
theorem find?_key_eq_some_iff (n : Nat) {xs : List α} (h : xs.Pairwise fun a b => key a < key b)
    {x : α} : (xs.find? fun y => key y == n) = some x ↔ x ∈ xs ∧ key x = n := by
  induction xs with
  | nil => simp
  | cons y ys ih =>
      obtain ⟨hy, hys⟩ := List.pairwise_cons.mp h
      by_cases hkey : key y = n
      · rw [List.find?_cons_of_pos (by simpa using hkey)]
        constructor
        · intro heq
          obtain rfl := Option.some.inj heq
          exact ⟨List.mem_cons_self, hkey⟩
        · intro hfound
          obtain ⟨hmem, hx⟩ := hfound
          rcases List.mem_cons.mp hmem with rfl | hlater
          · rfl
          · have := hy x hlater
            omega
      · rw [List.find?_cons_of_neg (by simpa using hkey), ih hys, List.mem_cons]
        constructor
        · intro hfound
          obtain ⟨hmem, hx⟩ := hfound
          exact ⟨.inr hmem, hx⟩
        · intro hfound
          obtain ⟨hmem, hx⟩ := hfound
          refine ⟨hmem.resolve_left ?_, hx⟩
          intro heq
          exact hkey (heq ▸ hx)

end Search

/-! ### Blocks -/

/-- In a list without repetition made of blocks, nothing lies in two blocks. -/
theorem block_unique {α β : Type} {l : List α} {f : α → List β} {x x' : α} {y : β}
    (hnodup : (l.flatMap f).Nodup) (hx : x ∈ l) (hx' : x' ∈ l) (hy : y ∈ f x) (hy' : y ∈ f x') :
    x = x' := by
  have hapart := (List.nodup_flatMap.mp hnodup).2
  have : Std.Symm (Function.onFun List.Disjoint f) := ⟨fun _ _ h _ ha hb => h hb ha⟩
  by_contra hne
  exact hapart.forall hx hx' hne hy hy'

/-- So what lies in the selection `g` of all blocks and in the block of `x` lies in the selection of
`x`. -/
theorem mem_of_mem_flatMap_of_nodup {α β : Type} {l : List α} {f g : α → List β} {x : α} {y : β}
    (hnodup : (l.flatMap f).Nodup) (hsub : ∀ a ∈ l, g a ⊆ f a) (hx : x ∈ l) (hy : y ∈ f x)
    (hmem : y ∈ l.flatMap g) : y ∈ g x := by
  obtain ⟨x', hx', hy'⟩ := List.mem_flatMap.mp hmem
  exact block_unique hnodup hx' hx (hsub x' hx' hy') hy ▸ hy'

/-! ### Lists in step -/

/-- A list without repetition is mapped to any list of its length by some function. -/
theorem exists_eq_map {α β : Type} [DecidableEq α] [Inhabited β] {xs : List α} {ys : List β}
    (hnodup : xs.Nodup) (hlength : ys.length = xs.length) : ∃ f : α → β, ys = xs.map f := by
  refine ⟨fun x => ys.getD (xs.idxOf x) default, List.ext_getElem (by simpa using hlength) ?_⟩
  intro i hi _
  have hx : i < xs.length := hlength ▸ hi
  simp [hnodup.idxOf_getElem i hx, hi]

theorem forall₂_eq_iff {α β γ : Type} {f : α → γ} {g : β → γ} {xs : List α} {ys : List β} :
    List.Forall₂ (fun x y => g y = f x) xs ys ↔ ys.map g = xs.map f := by
  rw [eq_comm, ← List.forall₂_eq_eq_eq, List.forall₂_map_left_iff, List.forall₂_map_right_iff]
  simp only [eq_comm]

theorem forall₂_eq_map_iff {α β : Type} {f : α → β} {xs : List α} {ys : List β} :
    List.Forall₂ (fun x y => y = f x) xs ys ↔ ys = xs.map f := by
  simpa using (forall₂_eq_iff : _ ↔ ys.map id = xs.map f)

/-- If all blocks together are mapped to blocks of the same lengths, each block is mapped to its
block. -/
theorem forall₂_blocks {α β γ δ : Type} {f : α → List γ} {g : β → List δ} {move : γ → δ}
    {xs : List α} {ys : List β}
    (hlength : List.Forall₂ (fun x y => (g y).length = (f x).length) xs ys)
    (hmap : ys.flatMap g = (xs.flatMap f).map move) :
    List.Forall₂ (fun x y => g y = (f x).map move) xs ys := by
  induction hlength with
  | nil => exact .nil
  | cons hpair _ ih =>
      rw [List.flatMap_cons, List.flatMap_cons, List.map_append] at hmap
      obtain ⟨hfirst, hrest⟩ := List.append_inj hmap (by rw [hpair, List.length_map])
      exact .cons hfirst (ih hrest)

/-- Lists of pairs go together if their first parts are equal and their second parts go together. -/
theorem forall₂_pairs {α β : Type} {S : β → β → Prop} {xs ys : List (α × β)}
    (hfst : ys.map Prod.fst = xs.map Prod.fst)
    (hsnd : List.Forall₂ S (xs.map Prod.snd) (ys.map Prod.snd)) :
    List.Forall₂ (fun x y => y.1 = x.1 ∧ S x.2 y.2) xs ys := by
  rw [List.forall₂_map_left_iff, List.forall₂_map_right_iff] at hsnd
  induction hsnd with
  | nil => exact .nil
  | cons hpair _ ih =>
      obtain ⟨hhead, htail⟩ := List.cons.inj hfst
      exact .cons ⟨hhead, hpair⟩ (ih htail)

theorem exists_of_forall₂_left {α β : Type} {R : α → β → Prop} {xs : List α} {ys : List β}
    (h : List.Forall₂ R xs ys) {x : α} (hx : x ∈ xs) : ∃ y ∈ ys, R x y := by
  induction h with
  | nil => cases hx
  | cons hpair _ ih =>
      rcases List.mem_cons.mp hx with rfl | hx
      · exact ⟨_, List.mem_cons_self, hpair⟩
      · obtain ⟨y, hy, hxy⟩ := ih hx
        exact ⟨y, List.mem_cons_of_mem _ hy, hxy⟩

/-- Blocks that go in step pair by pair go in step together. -/
theorem forall₂_flatMap {α β : Type} {R : β → β → Prop} {f g : α → List β} {xs : List α}
    (h : ∀ x ∈ xs, List.Forall₂ R (f x) (g x)) :
    List.Forall₂ R (xs.flatMap f) (xs.flatMap g) := by
  induction xs with
  | nil => exact .nil
  | cons x xs ih =>
      obtain ⟨hfirst, hrest⟩ := List.forall_mem_cons.mp h
      rw [List.flatMap_cons, List.flatMap_cons]
      exact List.rel_append hfirst (ih hrest)

end RecipeDesk
