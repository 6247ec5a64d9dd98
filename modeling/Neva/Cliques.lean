import Mathlib.Data.Set.Pairwise.Basic
import Mathlib.Order.Minimal

/-!
# Maximal sets of related elements

`Cliques.MaxClique r S G` says of a set `G` of elements of `S` that any two of them are related by
`r`, and that no other element of `S` can be added.  Two rules say how these sets change when one
element joins `S`: those with the new element come from the largest sets of elements that are all
related to it (`maxClique_insert_insert`), and the others are those that there were, but for the
ones that the new element extends (`maxClique_insert`).
-/

set_option autoImplicit false

namespace Cliques

variable {α : Type*} {r r' : α → α → Prop} {S G : Set α} {x : α}

/-- A largest set of elements of `S` that are all related to each other. -/
def MaxClique (r : α → α → Prop) (S G : Set α) : Prop :=
  Maximal (fun G ↦ G ⊆ S ∧ G.Pairwise r) G

/-- A largest set of elements of `S` that are all related to each other and satisfy `p`. -/
def MaxCliqueIn (r : α → α → Prop) (S : Set α) (p : α → Prop) (G : Set α) : Prop :=
  Maximal (fun G ↦ G ⊆ S ∧ G.Pairwise r ∧ ∀ a ∈ G, p a) G

theorem MaxClique.subset (h : MaxClique r S G) : G ⊆ S := h.prop.1

/-- Only what is related within `S` matters. -/
theorem maxClique_congr (h : ∀ a ∈ S, ∀ b ∈ S, r a b ↔ r' a b) :
    MaxClique r S G ↔ MaxClique r' S G := by
  have hiff : ∀ G : Set α, G ⊆ S ∧ G.Pairwise r ↔ G ⊆ S ∧ G.Pairwise r' := fun G ↦
    and_congr_right fun hG ↦ forall₂_congr fun a ha ↦ forall₂_congr fun b hb ↦
      imp_congr_right fun _ ↦ h a (hG ha) b (hG hb)
  rw [MaxClique, MaxClique, funext fun G ↦ propext (hiff G)]

theorem maxCliqueIn_congr {p p' : α → Prop} (h : ∀ a ∈ S, ∀ b ∈ S, r a b ↔ r' a b)
    (hp : ∀ a ∈ S, p a ↔ p' a) : MaxCliqueIn r S p G ↔ MaxCliqueIn r' S p' G := by
  have hiff : ∀ G : Set α, (G ⊆ S ∧ G.Pairwise r ∧ ∀ a ∈ G, p a) ↔
      G ⊆ S ∧ G.Pairwise r' ∧ ∀ a ∈ G, p' a := fun G ↦
    and_congr_right fun hG ↦ and_congr
      (forall₂_congr fun a ha ↦ forall₂_congr fun b hb ↦
        imp_congr_right fun _ ↦ h a (hG ha) b (hG hb))
      (forall₂_congr fun a ha ↦ hp a (hG ha))
  rw [MaxCliqueIn, MaxCliqueIn, funext fun G ↦ propext (hiff G)]

/-- The sets with an element that is new. -/
theorem maxClique_insert_insert (hsymm : ∀ a b, r a b → r b a) (hx : x ∉ S) (hG : G ⊆ S) :
    MaxClique r (insert x S) (insert x G) ↔ MaxCliqueIn r S (r · x) G := by
  have hpairwise : ∀ {H : Set α}, H ⊆ S →
      ((insert x H).Pairwise r ↔ H.Pairwise r ∧ ∀ a ∈ H, r a x) := fun {H} hH ↦ by
    rw [Set.pairwise_insert_of_notMem fun h ↦ hx (hH h)]
    exact and_congr_right fun _ ↦ forall₂_congr fun a _ ↦
      ⟨And.right, fun ha ↦ ⟨hsymm _ _ ha, ha⟩⟩
  constructor
  · intro h
    obtain ⟨hrel, hall⟩ := (hpairwise hG).mp h.prop.2
    refine ⟨⟨hG, hrel, hall⟩, fun H hH hle a ha ↦ ?_⟩
    have hinsert := h.le_of_ge ⟨Set.insert_subset_insert hH.1, (hpairwise hH.1).mpr hH.2⟩
      (Set.insert_subset_insert hle)
    rcases hinsert (Set.mem_insert_of_mem x ha) with rfl | hmem
    · exact absurd (hH.1 ha) hx
    · exact hmem
  · intro h
    refine ⟨⟨Set.insert_subset_insert hG, (hpairwise hG).mpr h.prop.2⟩, fun H hH hle a ha ↦ ?_⟩
    have hmem : x ∈ H := hle (Set.mem_insert x G)
    by_cases hax : a = x
    · exact hax ▸ Set.mem_insert x G
    · -- what is left of `H` without `x` is no larger than `G`
      refine Set.mem_insert_of_mem x (h.le_of_ge (y := H \ {x}) ⟨?_, ?_, ?_⟩ ?_ ⟨ha, hax⟩)
      · rintro b ⟨hb, hbx⟩
        exact (hH.1 hb).resolve_left hbx
      · exact hH.2.mono Set.sdiff_subset
      · exact fun b hb ↦ hH.2 hb.1 hmem hb.2
      · exact fun b hb ↦ ⟨hle (Set.mem_insert_of_mem x hb), fun hbx ↦ hx (hG (hbx ▸ hb))⟩

/-- The sets without the element that is new. -/
theorem maxClique_insert (hsymm : ∀ a b, r a b → r b a) (hG : x ∉ G) :
    MaxClique r (insert x S) G ↔ MaxClique r S G ∧ ¬∀ a ∈ G, r a x := by
  constructor
  · intro h
    refine ⟨⟨⟨fun a ha ↦ ?_, h.prop.2⟩, fun H hH hle ↦ ?_⟩, fun hall ↦ hG ?_⟩
    · exact (h.subset ha).resolve_left fun hax ↦ hG (hax ▸ ha)
    · exact h.le_of_ge ⟨hH.1.trans (Set.subset_insert x S), hH.2⟩ hle
    · refine h.le_of_ge ⟨Set.insert_subset (Set.mem_insert x S) h.subset, ?_⟩
        (Set.subset_insert x G) (Set.mem_insert x G)
      rw [Set.pairwise_insert_of_notMem hG]
      exact ⟨h.prop.2, fun a ha ↦ ⟨hsymm _ _ (hall a ha), hall a ha⟩⟩
  · rintro ⟨h, hnot⟩
    refine ⟨⟨h.subset.trans (Set.subset_insert x S), h.prop.2⟩, fun H hH hle ↦ ?_⟩
    have hxH : x ∉ H := fun hmem ↦ hnot fun a ha ↦
      hH.2 (hle ha) hmem fun hax ↦ hG (hax ▸ ha)
    refine h.le_of_ge ⟨fun a ha ↦ ?_, hH.2⟩ hle
    exact (hH.1 ha).resolve_left fun hax ↦ hxH (hax ▸ ha)

end Cliques
