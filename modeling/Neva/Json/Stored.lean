import Neva.Json.Loads

/-!
# Documents in a store

A store that keeps JSON values does not keep their text.  What is read back of an object has the
same members in an order of the store's own, and a number may be spelled differently; texts,
truth values and the order of an array are kept.  `Json.Store` is such a store.
-/

set_option autoImplicit false

namespace Json

/-- A store of JSON values, as far as a reader can rely on it. -/
structure Store where
  /-- What is read back of a document that has been written. -/
  read : Json → Json
  read_null : read .null = .null
  read_bool : ∀ b, read (.bool b) = .bool b
  read_num : ∀ n, ∃ n', read (.num n) = .num n'
  read_str : ∀ s, read (.str s) = .str s
  read_arr : ∀ items, read (.arr items) = .arr (items.map read)
  /-- The members of an object come back in some order. -/
  read_obj : ∀ members, ∃ members', read (.obj members) = .obj members' ∧
    ((members.map Prod.fst).Nodup → members'.Perm (members.map fun m ↦ (m.1, read m.2)))

namespace Store

/-- The store that keeps documents as they are. -/
def verbatim : Store where
  read v := v
  read_null := rfl
  read_bool _ := rfl
  read_num n := ⟨n, rfl⟩
  read_str _ := rfl
  read_arr items := by rw [List.map_id']
  read_obj members := ⟨members, rfl, fun _ ↦ by simp⟩

end Store

/-! ## Looking a name up -/

theorem lookup_eq_some {members : List (List Char × Json)} (hn : (members.map Prod.fst).Nodup)
    {name : List Char} {v : Json} : lookup members name = some v ↔ (name, v) ∈ members := by
  refine ⟨mem_of_lookup, fun hmem ↦ ?_⟩
  cases hfind : lookup members name with
  | none =>
    rw [lookup, Option.map_eq_none_iff, List.find?_eq_none] at hfind
    exact absurd (beq_self_eq_true name) (hfind _ hmem)
  | some v' =>
    have heq := List.inj_on_of_nodup_map hn (mem_of_lookup hfind) hmem rfl
    rw [(Prod.mk.inj heq).2]

/-- The order of the members does not matter. -/
theorem lookup_perm {members members' : List (List Char × Json)} (hp : members.Perm members')
    (hn : (members.map Prod.fst).Nodup) (name : List Char) :
    lookup members name = lookup members' name := by
  have hn' : (members'.map Prod.fst).Nodup := (hp.map Prod.fst).nodup_iff.mp hn
  refine Option.ext fun v ↦ ?_
  rw [lookup_eq_some hn, lookup_eq_some hn', hp.mem_iff]

theorem lookup_map (f : Json → Json) (members : List (List Char × Json)) (name : List Char) :
    lookup (members.map fun m ↦ (m.1, f m.2)) name = (lookup members name).map f := by
  rw [lookup, List.find?_map, lookup, Option.map_map, Option.map_map]
  rfl

theorem properItems_iff {items : List Json} : ProperItems items ↔ ∀ v ∈ items, v.Proper := by
  induction items with
  | nil => simp [ProperItems]
  | cons v items ih => rw [ProperItems, ih, List.forall_mem_cons]

theorem properMembers_iff {members : List (List Char × Json)} :
    ProperMembers members ↔ ∀ m ∈ members, m.2.Proper := by
  induction members with
  | nil => simp [ProperMembers]
  | cons m members ih => rw [ProperMembers, ih, List.forall_mem_cons]

/-- `value.get(outer).get(name)` -/
def field? (v : Json) (outer name : List Char) : Option Json :=
  (v.get? outer).bind fun w ↦ w.get? name

/-- What has a member is an object. -/
theorem field?_eq_some {v w : Json} {outer name : List Char} : v.field? outer name = some w ↔
    ∃ inner, v.get? outer = some (.obj inner) ∧ lookup inner name = some w := by
  rw [field?, Option.bind_eq_some_iff]
  constructor
  · rintro ⟨x, hx, hw⟩
    cases x with
    | obj inner => exact ⟨inner, hx, hw⟩
    | _ => cases hw
  · rintro ⟨inner, hinner, hw⟩
    exact ⟨_, hinner, hw⟩

/-! ## What is read back -/

namespace Store

variable (S : Store)

/-- The names of an object come back in some order. -/
theorem names_perm {members members' : List (List Char × Json)}
    (hp : members'.Perm (members.map fun m ↦ (m.1, S.read m.2))) :
    (members'.map Prod.fst).Perm (members.map Prod.fst) := by
  have := hp.map Prod.fst
  rwa [List.map_map] at this

/-- The value under a name is read back under this name. -/
theorem get?_read {members : List (List Char × Json)} (hn : (members.map Prod.fst).Nodup)
    (name : List Char) :
    (S.read (.obj members)).get? name = (lookup members name).map S.read := by
  obtain ⟨members', hread, hp⟩ := S.read_obj members
  rw [hread, get?, lookup_perm (hp hn) ((S.names_perm (hp hn)).nodup_iff.mpr hn), lookup_map]

/-- A member of a member is read back, too. -/
theorem field?_read {members inner : List (List Char × Json)} {outer : List Char}
    (hn : (members.map Prod.fst).Nodup) (ho : lookup members outer = some (.obj inner))
    (hi : (inner.map Prod.fst).Nodup) (name : List Char) :
    (S.read (.obj members)).field? outer name = (lookup inner name).map S.read := by
  rw [field?, S.get?_read hn, ho, Option.map_some, Option.bind_some, S.get?_read hi]

mutual

/-- A dictionary is read back as a dictionary. -/
theorem proper_read : ∀ v : Json, v.Proper → (S.read v).Proper
  | .null, _ => by
    rw [S.read_null]
    exact trivial
  | .bool b, _ => by
    rw [S.read_bool]
    exact trivial
  | .num n, _ => by
    obtain ⟨n', hn'⟩ := S.read_num n
    rw [hn']
    exact trivial
  | .str s, _ => by
    rw [S.read_str]
    exact trivial
  | .arr items, h => by
    rw [S.read_arr]
    exact properItems_iff.mpr (proper_readItems items h)
  | .obj members, h => by
    obtain ⟨members', hread, hp⟩ := S.read_obj members
    rw [hread]
    refine ⟨(S.names_perm (hp h.1)).nodup_iff.mpr h.1, properMembers_iff.mpr fun m hm ↦ ?_⟩
    exact proper_readMembers members h.2 m ((hp h.1).mem_iff.mp hm)

theorem proper_readItems : ∀ items : List Json, ProperItems items →
    ∀ v ∈ items.map S.read, v.Proper
  | [], _ => by simp
  | v :: items, h => by
    rw [List.map_cons, List.forall_mem_cons]
    exact ⟨proper_read v h.1, proper_readItems items h.2⟩

theorem proper_readMembers : ∀ members : List (List Char × Json), ProperMembers members →
    ∀ m ∈ members.map fun m ↦ (m.1, S.read m.2), m.2.Proper
  | [], _ => by simp
  | (k, v) :: members, h => by
    rw [List.map_cons, List.forall_mem_cons]
    exact ⟨proper_read v h.1, proper_readMembers members h.2⟩

end

end Store

end Json
