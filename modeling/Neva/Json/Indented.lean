import Neva.Json.Stored

/-!
# The indented text of a value

`Json.indented` is `json.dumps(value, indent=2, sort_keys=True)`: the members of every object in
the order of their names, one item to a line, and nothing but ASCII.  A character that is not
ASCII is an escape, or a pair of them.

`loads_indented` is the round trip.  It gives back the value with its members sorted, which is
the same dictionary: `lookup_sorted`.
-/

set_option autoImplicit false

namespace Json

/-! ## Sorting -/

/-- The order of Python's strings: by code points. -/
def nameLe (a b : List Char) : Bool := decide (a.map Char.toNat ≤ b.map Char.toNat)

theorem nameLe_trans (a b c : List Char) (hab : nameLe a b = true) (hbc : nameLe b c = true) :
    nameLe a c = true := by
  rw [nameLe, decide_eq_true_eq] at *
  exact le_trans hab hbc

theorem nameLe_total (a b : List Char) : (nameLe a b || nameLe b a) = true := by
  rw [Bool.or_eq_true, nameLe, nameLe, decide_eq_true_eq, decide_eq_true_eq]
  exact le_total _ _

theorem nameLe_antisymm {a b : List Char} (hab : nameLe a b = true) (hba : nameLe b a = true) :
    a = b := by
  rw [nameLe, decide_eq_true_eq] at hab hba
  have hcode : Function.Injective Char.toNat := fun c d h ↦ by
    rw [← Char.ofNat_toNat c, ← Char.ofNat_toNat d, h]
  exact List.map_injective_iff.mpr hcode (le_antisymm hab hba)

mutual

/-- The value with the members of every object in the order of their names. -/
def sorted : Json → Json
  | .arr items => .arr (sortedItems items)
  | .obj members => .obj ((sortedMembers members).mergeSort fun a b ↦ nameLe a.1 b.1)
  | v => v

def sortedItems : List Json → List Json
  | [] => []
  | v :: rest => v.sorted :: sortedItems rest

def sortedMembers : List (List Char × Json) → List (List Char × Json)
  | [] => []
  | (k, v) :: rest => (k, v.sorted) :: sortedMembers rest

end

theorem sortedMembers_eq_map (members : List (List Char × Json)) :
    sortedMembers members = members.map fun m ↦ (m.1, m.2.sorted) := by
  induction members with
  | nil => rfl
  | cons m rest ih => rw [sortedMembers, ih, List.map_cons]

/-- The members of a sorted object. -/
def sortMembers (members : List (List Char × Json)) : List (List Char × Json) :=
  (members.map fun m ↦ (m.1, m.2.sorted)).mergeSort fun a b ↦ nameLe a.1 b.1

theorem sorted_obj (members : List (List Char × Json)) :
    (obj members).sorted = .obj (sortMembers members) := by
  rw [sorted, sortedMembers_eq_map, sortMembers]

theorem sortMembers_perm (members : List (List Char × Json)) :
    (sortMembers members).Perm (members.map fun m ↦ (m.1, m.2.sorted)) :=
  List.mergeSort_perm _ _

theorem names_sortMembers (members : List (List Char × Json)) :
    ((sortMembers members).map Prod.fst).Perm (members.map Prod.fst) := by
  have h := (sortMembers_perm members).map Prod.fst
  rwa [List.map_map, show Prod.fst ∘ (fun m : List Char × Json ↦ (m.1, m.2.sorted)) = Prod.fst from
    rfl] at h

/-- Sorting changes no dictionary. -/
theorem lookup_sorted {members : List (List Char × Json)} (hn : (members.map Prod.fst).Nodup)
    (name : List Char) :
    lookup (sortMembers members) name = (lookup members name).map sorted := by
  rw [lookup_perm (sortMembers_perm members) ((names_sortMembers members).nodup_iff.mpr hn),
    lookup_map]

mutual

theorem proper_sorted : ∀ v : Json, v.Proper → v.sorted.Proper
  | .null, _ => by simp [sorted, Proper]
  | .bool _, _ => by simp [sorted, Proper]
  | .num _, _ => by simp [sorted, Proper]
  | .str _, _ => by simp [sorted, Proper]
  | .arr items, h => by
    rw [Proper] at h
    rw [sorted, Proper]
    exact proper_sortedItems items h
  | .obj members, h => by
    rw [Proper] at h
    rw [sorted_obj, Proper]
    refine ⟨(names_sortMembers members).nodup_iff.mpr h.1, properMembers_iff.mpr fun m hm ↦ ?_⟩
    have hmap := (sortMembers_perm members).mem_iff.mp hm
    rw [← sortedMembers_eq_map] at hmap
    exact properMembers_iff.mp (proper_sortedMembers members h.2) m hmap

theorem proper_sortedItems : ∀ items : List Json, ProperItems items →
    ProperItems (sortedItems items)
  | [], _ => by simp [sortedItems, ProperItems]
  | v :: rest, h => by
    rw [ProperItems] at h
    rw [sortedItems, ProperItems]
    exact ⟨proper_sorted v h.1, proper_sortedItems rest h.2⟩

theorem proper_sortedMembers : ∀ members : List (List Char × Json), ProperMembers members →
    ProperMembers (sortedMembers members)
  | [], _ => by simp [sortedMembers, ProperMembers]
  | (k, v) :: rest, h => by
    rw [ProperMembers] at h
    rw [sortedMembers, ProperMembers]
    exact ⟨proper_sorted v h.1, proper_sortedMembers rest h.2⟩

end

/-! ## Text -/

/-- Four hexadecimal digits. -/
def hex4 (n : ℕ) : List Char :=
  [hexDigit (n / 4096 % 16), hexDigit (n / 256 % 16), hexDigit (n / 16 % 16), hexDigit (n % 16)]

/-- One character inside a string, with `ensure_ascii`. -/
def escapeAscii (c : Char) : List Char :=
  if c = '"' then ['\\', '"']
  else if c = '\\' then ['\\', '\\']
  else if c = '\n' then ['\\', 'n']
  else if c = '\r' then ['\\', 'r']
  else if c = '\t' then ['\\', 't']
  else if c.toNat = 8 then ['\\', 'b']
  else if c.toNat = 12 then ['\\', 'f']
  else if 32 ≤ c.toNat ∧ c.toNat < 127 then [c]
  else if c.toNat < 0x10000 then '\\' :: 'u' :: hex4 c.toNat
  else
    '\\' :: 'u' :: hex4 (0xD800 + (c.toNat - 0x10000) / 0x400) ++
      '\\' :: 'u' :: hex4 (0xDC00 + (c.toNat - 0x10000) % 0x400)

/-- The text of a string, with `ensure_ascii`. -/
def quoteAscii (s : List Char) : List Char := '"' :: s.flatMap escapeAscii ++ ['"']

/-- A new line, and the indentation of it. -/
def newline (level : ℕ) : List Char := '\n' :: List.replicate (2 * level) ' '

mutual

/-- The text of a value that stands at a level. -/
def indentedAt (level : ℕ) : Json → List Char
  | .null => ['n', 'u', 'l', 'l']
  | .bool true => ['t', 'r', 'u', 'e']
  | .bool false => ['f', 'a', 'l', 's', 'e']
  | .num n => n.text
  | .str s => quoteAscii s
  | .arr [] => ['[', ']']
  | .arr (v :: rest) =>
    '[' :: newline (level + 1) ++ v.indentedAt (level + 1) ++ indentedItems level rest
  | .obj [] => ['{', '}']
  | .obj ((k, v) :: rest) =>
    '{' :: newline (level + 1) ++ quoteAscii k ++ ':' :: ' ' :: v.indentedAt (level + 1) ++
      indentedMembers level rest

/-- The rest of an array. -/
def indentedItems (level : ℕ) : List Json → List Char
  | [] => newline level ++ [']']
  | v :: rest => ',' :: newline (level + 1) ++ v.indentedAt (level + 1) ++ indentedItems level rest

/-- The rest of an object. -/
def indentedMembers (level : ℕ) : List (List Char × Json) → List Char
  | [] => newline level ++ ['}']
  | (k, v) :: rest =>
    ',' :: newline (level + 1) ++ quoteAscii k ++ ':' :: ' ' :: v.indentedAt (level + 1) ++
      indentedMembers level rest

end

/-- `json.dumps(value, indent=2, sort_keys=True)` -/
def indented (v : Json) : List Char := v.sorted.indentedAt 0

/-! ## Reading it back -/

namespace State

variable {stack : List Frame} {isName : Bool} {read : List Char}

theorem feed_hex4 {n : ℕ} (hn : n < 0x10000) (high : Option ℕ) :
    (run stack (.hex isName read 4 0 high)).feed (hex4 n) =
      finishHex isName read stack n high := by
  have h1 := hexValue_hexDigit (n / 4096 % 16) (by omega)
  have h2 := hexValue_hexDigit (n / 256 % 16) (by omega)
  have h3 := hexValue_hexDigit (n / 16 % 16) (by omega)
  have h4 := hexValue_hexDigit (n % 16) (by omega)
  have hsum : ((n / 4096 % 16 * 16 + n / 256 % 16) * 16 + n / 16 % 16) * 16 + n % 16 = n := by omega
  simp [hex4, feed_cons, step, h1, h2, h3, h4, hsum]

theorem feed_u (text : List Char) : (run stack (.str isName read)).feed ('\\' :: 'u' :: text) =
    (run stack (.hex isName read 4 0 none)).feed text := rfl

theorem feed_low_u (high : ℕ) (text : List Char) :
    (run stack (.low isName read high false)).feed ('\\' :: 'u' :: text) =
      (run stack (.hex isName read 4 0 (some high))).feed text := rfl

/-- The escape of a character that is not half a pair. -/
theorem feed_unicode {n : ℕ} (hn : n < 0x10000) (hsur : ¬ (0xD800 ≤ n ∧ n ≤ 0xDFFF)) :
    (run stack (.str isName read)).feed ('\\' :: 'u' :: hex4 n) =
      some (run stack (.str isName (Char.ofNat n :: read))) := by
  rw [feed_u, feed_hex4 hn, finishHex, if_neg (by omega), if_neg (by omega)]

/-- The escape of a character beyond the basic plane. -/
theorem feed_pair {n : ℕ} (hn : n < 0x100000) :
    (run stack (.str isName read)).feed ('\\' :: 'u' :: hex4 (0xD800 + n / 0x400) ++
      '\\' :: 'u' :: hex4 (0xDC00 + n % 0x400)) =
      some (run stack (.str isName (Char.ofNat (0x10000 + n) :: read))) := by
  have hfirst : (run stack (.str isName read)).feed ('\\' :: 'u' :: hex4 (0xD800 + n / 0x400)) =
      some (run stack (.low isName read (0xD800 + n / 0x400) false)) := by
    rw [feed_u, feed_hex4 (by omega), finishHex, if_pos (by omega)]
  have hcode : 0x10000 + (0xD800 + n / 0x400 - 0xD800) * 0x400 + (0xDC00 + n % 0x400 - 0xDC00) =
      0x10000 + n := by omega
  rw [feed_append, hfirst, Option.bind_some, feed_low_u, feed_hex4 (by omega), finishHex,
    if_pos (by omega), hcode]

/-- What `escapeAscii` writes for a character is read as that character. -/
theorem feed_escapeAscii (c : Char) :
    (run stack (.str isName read)).feed (escapeAscii c) =
      some (run stack (.str isName (c :: read))) := by
  have hcode : Char.ofNat c.toNat = c := Char.ofNat_toNat c
  by_cases hshort : c = '"' ∨ c = '\\' ∨ c = '\n' ∨ c = '\r' ∨ c = '\t' ∨ c.toNat = 8 ∨
      c.toNat = 12
  · -- the short escapes are those of `escape`
    have hsame : escapeAscii c = escape c := by
      rw [escapeAscii, escape]
      split_ifs <;> simp_all
    rw [hsame, feed_escape_char]
  · simp only [not_or] at hshort
    obtain ⟨hquote, hslash, hn, hr, ht, hb, hf⟩ := hshort
    rw [escapeAscii, if_neg hquote, if_neg hslash, if_neg hn, if_neg hr, if_neg ht, if_neg hb,
      if_neg hf]
    have hvalid : c.toNat < 0xD800 ∨ 0xDFFF < c.toNat ∧ c.toNat < 0x110000 := c.valid
    by_cases hplain : 32 ≤ c.toNat ∧ c.toNat < 127
    · rw [if_pos hplain, feed_cons, step_plain hquote hslash (by omega)]
      rfl
    rw [if_neg hplain]
    by_cases hbasic : c.toNat < 0x10000
    · rw [if_pos hbasic, feed_unicode hbasic (by omega), hcode]
    · rw [if_neg hbasic, feed_pair (by omega), Nat.add_sub_cancel' (by omega), hcode]

theorem feed_quoteAscii {s : State} (hopen : s.step '"' = some (run stack (.str isName [])))
    (text : List Char) : s.feed (quoteAscii text) = finishString isName text.reverse stack := by
  have hall (read : List Char) : (run stack (.str isName read)).feed (text.flatMap escapeAscii) =
      some (run stack (.str isName (text.reverse ++ read))) := by
    induction text generalizing read with
    | nil => rfl
    | cons c s ih => simp [feed_append, feed_escapeAscii, ih]
  rw [quoteAscii, List.cons_append, feed_cons, hopen, Option.bind_some, feed_append, hall,
    Option.bind_some, feed_cons, step]
  simp

/-! ### Between the tokens -/

theorem feed_blanks {s : State} (hs : ∀ c, isBlank c = true → s.step c = some s) {text : List Char}
    (h : ∀ c ∈ text, isBlank c = true) : s.feed text = some s := by
  induction text with
  | nil => rfl
  | cons c text ih =>
    obtain ⟨hc, hrest⟩ := List.forall_mem_cons.mp h
    rw [feed_cons, hs c hc, Option.bind_some, ih hrest]

theorem isBlank_newline (level : ℕ) : ∀ c ∈ newline level, isBlank c = true := by
  intro c hc
  rcases List.mem_cons.mp hc with rfl | hc
  · rfl
  · rw [List.eq_of_mem_replicate hc]
    rfl

theorem feed_newline_value (first : Bool) (level : ℕ) (text : List Char) :
    (run stack (.value first)).feed (newline level ++ text) =
      (run stack (.value first)).feed text := by
  rw [feed_append, feed_blanks (fun c hc ↦ by rw [step, if_pos hc]) (isBlank_newline level),
    Option.bind_some]

theorem feed_newline_name (first : Bool) (level : ℕ) (text : List Char) :
    (run stack (.name first)).feed (newline level ++ text) =
      (run stack (.name first)).feed text := by
  rw [feed_append, feed_blanks (fun c hc ↦ by rw [step, if_pos hc]) (isBlank_newline level),
    Option.bind_some]

/-- A value inside an array or object, a new line, and what follows there. -/
theorem Ended.feed_newline {v : Json} {f f' : Frame} {s : State} (h : Ended v (f :: stack) s)
    (hf : finish v (f :: stack) = some (run (f' :: stack) .after)) (level : ℕ) (c : Char)
    (hc : isBlank c = false) :
    s.feed (newline level ++ [c]) = close c (f' :: stack) := by
  have hblank : isBlank '\n' = true := rfl
  have hafter (text : List Char) (htext : ∀ c ∈ text, isBlank c = true) :
      (run (f' :: stack) .after).feed text = some (run (f' :: stack) .after) :=
    feed_blanks (fun c hc ↦ by rw [State.step, stepAfter, if_pos hc]) htext
  rw [newline, List.cons_append, h.feed_cons (by decide), hf, Option.bind_some, stepAfter,
    if_pos hblank, Option.bind_some, feed_append,
    hafter _ fun c hc ↦ by rw [List.eq_of_mem_replicate hc]; rfl, Option.bind_some,
    State.feed_cons]
  have hstep : (run (f' :: stack) .after).step c = close c (f' :: stack) := by
    rw [State.step, stepAfter, if_neg (by simp [hc])]
  rw [hstep, bind_feed_nil]

/-- The name of a member, with the blank after the colon. -/
theorem feed_nameAscii (members : List (List Char × Json)) (name : Option (List Char))
    (first : Bool) (k text : List Char) :
    (run (.obj members name :: stack) (.name first)).feed (quoteAscii k ++ ':' :: ' ' :: text) =
      (run (.obj members (some k) :: stack) (.value false)).feed text := by
  rw [feed_append, feed_quoteAscii (step_name_quote first)]
  simp [finishString, State.feed_cons, State.step, isBlank]

/-! ### The round trip -/

mutual

/-- **The indented text of a value, where a value is expected, is read as that value.** -/
theorem feed_indentedAt : ∀ (v : Json), v.Proper → ∀ (level : ℕ) (stack : List Frame),
    Ready stack → ∀ first : Bool,
      ∃ s, (run stack (.value first)).feed (v.indentedAt level) = some s ∧ Ended v stack s
  | .null, _, _, _, _, _ => by
    rw [indentedAt]
    exact feed_value_atom (by decide) (List.all_eq_true.mp rfl) rfl
  | .bool true, _, _, _, _, _ => by
    rw [indentedAt]
    exact feed_value_atom (by decide) (List.all_eq_true.mp rfl) rfl
  | .bool false, _, _, _, _, _ => by
    rw [indentedAt]
    exact feed_value_atom (by decide) (List.all_eq_true.mp rfl) rfl
  | .num n, _, _, _, _, _ => by
    rw [indentedAt]
    exact feed_value_atom (ne_nil_of_isNumeral n.numeral) (isAtomChar_of_isNumeral n.numeral)
      (atomValue_numeral n)
  | .str s, _, level, stack, hready, first => by
    obtain ⟨t, ht⟩ := hready (.str s)
    refine ⟨t, ?_, .inl ht⟩
    rw [indentedAt, feed_quoteAscii (step_value_quote first)]
    show finish (.str s.reverse.reverse) stack = some t
    rw [List.reverse_reverse, ht]
  | .arr [], _, level, stack, hready, first => by
    obtain ⟨t, ht⟩ := hready (.arr [])
    refine ⟨t, ?_, .inl ht⟩
    rw [indentedAt, State.feed_cons, step_value_open '[' (by decide) (by decide), openValue,
      if_neg (by decide), if_pos rfl, Option.bind_some, State.feed_cons, bind_feed_nil, arr_empty]
    exact ht
  | .arr (v :: rest), h, level, stack, hready, first => by
    obtain ⟨t, ht⟩ := hready (.arr (v :: rest))
    refine ⟨t, ?_, .inl ht⟩
    rw [Proper, ProperItems] at h
    obtain ⟨s, hs, hended⟩ :=
      feed_indentedAt v h.1 (level + 1) (.arr [] :: stack) (ready_arr []) true
    rw [indentedAt, List.cons_append, List.cons_append, State.feed_cons,
      step_value_open '[' (by decide) (by decide), openValue, if_neg (by decide), if_pos rfl,
      Option.bind_some, List.append_assoc, feed_newline_value, feed_append, hs, Option.bind_some,
      feed_indentedItems rest h.2 level stack v [] hended]
    exact ht
  | .obj [], _, level, stack, hready, first => by
    obtain ⟨t, ht⟩ := hready (.obj [])
    refine ⟨t, ?_, .inl ht⟩
    rw [indentedAt, State.feed_cons, step_value_open '\x7b' (by decide) (by decide), openValue,
      if_neg (by decide), if_neg (by decide), if_pos rfl, Option.bind_some, State.feed_cons,
      bind_feed_nil, obj_empty]
    exact ht
  | .obj ((k, v) :: rest), h, level, stack, hready, first => by
    obtain ⟨t, ht⟩ := hready (.obj ((k, v) :: rest))
    refine ⟨t, ?_, .inl ht⟩
    rw [Proper, ProperMembers] at h
    obtain ⟨s, hs, hended⟩ :=
      feed_indentedAt v h.2.1 (level + 1) (.obj [] (some k) :: stack) (ready_obj [] k) false
    rw [indentedAt, List.cons_append, List.cons_append, List.cons_append, State.feed_cons,
      step_value_open '\x7b' (by decide) (by decide), openValue, if_neg (by decide),
      if_neg (by decide), if_pos rfl, Option.bind_some, List.append_assoc, List.append_assoc,
      feed_newline_name, List.cons_append, List.cons_append, feed_nameAscii, feed_append, hs,
      Option.bind_some, feed_indentedMembers rest h.2.2 level stack k v [] hended,
      List.reverse_nil, List.nil_append, dict_eq_self h.1]
    exact ht

/-- The array whose value `v` has just been read. -/
theorem feed_indentedItems : ∀ (rest : List Json), ProperItems rest → ∀ (level : ℕ)
    (stack : List Frame) (v : Json) (read : List Json) {s : State},
    Ended v (.arr read :: stack) s →
      s.feed (indentedItems level rest) = finish (.arr (read.reverse ++ v :: rest)) stack
  | [], _, level, stack, v, read, s, hended => by
    rw [indentedItems, hended.feed_newline rfl level ']' (by decide), close,
      if_neg (by decide), if_pos rfl, List.reverse_cons]
  | w :: rest, h, level, stack, v, read, s, hended => by
    rw [ProperItems] at h
    obtain ⟨t, ht, hnext⟩ :=
      feed_indentedAt w h.1 (level + 1) (.arr (v :: read) :: stack) (ready_arr _) false
    rw [indentedItems, List.cons_append, List.cons_append, hended.feed_cons (by decide), arr_comma,
      Option.bind_some, List.append_assoc, feed_newline_value, feed_append, ht, Option.bind_some,
      feed_indentedItems rest h.2 level stack w (v :: read) hnext, List.reverse_cons,
      List.append_assoc, List.singleton_append]

/-- The object whose member `(k, v)` has just been read. -/
theorem feed_indentedMembers : ∀ (rest : List (List Char × Json)), ProperMembers rest →
    ∀ (level : ℕ) (stack : List Frame) (k : List Char) (v : Json)
      (read : List (List Char × Json)) {s : State},
    Ended v (.obj read (some k) :: stack) s →
      s.feed (indentedMembers level rest) =
        finish (.obj (dict (read.reverse ++ (k, v) :: rest))) stack
  | [], _, level, stack, k, v, read, s, hended => by
    rw [indentedMembers, hended.feed_newline rfl level '\x7d' (by decide), close,
      if_neg (by decide), if_pos rfl, List.reverse_cons]
  | (k', w) :: rest, h, level, stack, k, v, read, s, hended => by
    rw [ProperMembers] at h
    obtain ⟨t, ht, hnext⟩ :=
      feed_indentedAt w h.1 (level + 1) (.obj ((k, v) :: read) (some k') :: stack) (ready_obj _ _)
        false
    rw [indentedMembers, List.cons_append, List.cons_append, List.cons_append,
      hended.feed_cons (by decide), obj_comma, Option.bind_some, List.append_assoc,
      List.append_assoc, feed_newline_name, List.cons_append, List.cons_append, feed_nameAscii,
      feed_append, ht, Option.bind_some,
      feed_indentedMembers rest h.2 level stack k' w ((k, v) :: read) hnext, List.reverse_cons,
      List.append_assoc, List.singleton_append]

end

end State

/-- **Reading back the indented text, and the end of the line.** -/
theorem loads_indented {v : Json} (h : v.Proper) :
    loads (v.indented ++ ['\n']) = some v.sorted := by
  obtain ⟨s, hs, hended⟩ :=
    State.feed_indentedAt v.sorted (proper_sorted v h) 0 [] State.ready_nil false
  rw [loads, State.start, State.feed_append, indented, hs, Option.bind_some, State.feed_cons,
    hended.step (by decide)]
  rfl

end Json
