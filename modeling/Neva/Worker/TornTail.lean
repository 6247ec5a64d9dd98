import Neva.Tables
import Neva.Worker.Corpus

/-!
# A torn last line

When a worker dies while it writes, a shard may end in the middle of a line.  The search for an
utterance copes with that: a line that is no JSON text is passed over, a complete one that only
misses its newline is read like any other.  The writer does not look at the end of the shard at
all, and the next record goes right behind what is there.  Then both are lost: an object behind the
rest of another line is no JSON text (`Json.loads_append_dumps`).

`append_survives` says what that leaves of the promise that a record which has been appended is
found, and that what was found before is found still.  It is kept exactly when the record was there
already, or the shard it goes to is new, empty or ends with a newline.  A shard that ends inside a
character is in nobody's way: the search that comes before the write raises.
-/

set_option autoImplicit false

namespace Neva

/-! ## Golden records -/

/-- A record `append` accepts: a dictionary with a non-empty `utterance_id`. -/
structure Golden where
  members : List (Text × Json)
  proper : (Json.obj members).Proper
  utteranceId : Text
  named : utteranceId ≠ []
  lookup : Json.lookup members "utterance_id".toList = some (.str utteranceId)

/-- The record as a JSON value. -/
def Golden.json (g : Golden) : Json := .obj g.members

/-- The line of the record. -/
def Golden.line (g : Golden) : Text := g.json.dumps

theorem Golden.newline_not_mem_line (g : Golden) : '\n' ∉ g.line := g.json.newline_not_mem_dumps

/-- The line of a record, and what stands before it in the same line. -/
theorem Golden.strip_append_line (g : Golden) {s : Text} (hs : s = [] ∨ s.head? = some '{') :
    strip (s ++ g.line) = s ++ g.line := by
  obtain ⟨body, hbody⟩ := Json.exists_dumps_obj g.members
  have hline : g.line = '{' :: body ++ ['}'] := hbody
  rw [hline]
  rcases hs with rfl | hs
  · exact strip_eq_self (by decide) (by decide)
  · cases s with
    | nil => simp at hs
    | cons c s =>
      cases hs
      have := strip_eq_self (c := '{') (d := '}') (s := s ++ '{' :: body) (by decide) (by decide)
      simpa using this

theorem Golden.lineHas_line (g : Golden) (u : Text) :
    lineHas u g.line = .ok (g.utteranceId == u) := by
  have hstrip : strip g.line = g.line := g.strip_append_line (s := []) (.inl rfl)
  have hloads : Json.loads g.line = some (.obj g.members) := Json.loads_dumps g.proper
  have hne : g.line ≠ [] := by
    obtain ⟨body, hbody⟩ := Json.exists_dumps_obj g.members
    rw [Golden.line, Golden.json, hbody]
    simp
  rw [lineHas, hstrip, if_neg hne, hloads]
  dsimp only
  rw [g.lookup]

/-- Behind the rest of another line the record cannot be read. -/
theorem Golden.lineHas_torn (g : Golden) {s : Text} (hs : s.head? = some '{') (u : Text) :
    lineHas u (s ++ g.line) = .ok false := by
  rw [lineHas, g.strip_append_line (.inr hs)]
  split
  · rfl
  · cases s with
    | nil => simp at hs
    | cons c s =>
      cases hs
      have : Json.loads ('{' :: s ++ g.line) = none := Json.loads_append_dumps s g.proper
      rw [this]

/-! ## Searching -/

theorem anyLine_append_of_false {u : Text} {ls : List Text} (h : anyLine u ls = .ok false)
    (ls' : List Text) : anyLine u (ls ++ ls') = anyLine u ls' := by
  induction ls with
  | nil => rfl
  | cons l ls ih =>
    rw [anyLine] at h
    rw [List.cons_append, anyLine]
    split at h
    · exact ih h
    · rename_i hl
      exact absurd h hl

theorem anyLine_append_of_ne {u : Text} {ls : List Text} (h : anyLine u ls ≠ .ok false)
    (ls' : List Text) : anyLine u (ls ++ ls') = anyLine u ls := by
  induction ls with
  | nil => exact absurd rfl h
  | cons l ls ih =>
    rw [anyLine] at h ⊢
    rw [List.cons_append, anyLine]
    split at h
    · exact ih h
    · rfl

theorem anyLine_singleton (u l : Text) : anyLine u [l] = lineHas u l := by
  rw [anyLine]
  split
  · rename_i hl
    rw [hl]
    rfl
  · rfl

namespace Shard

variable {f : Shard} {u : Text}

/-- The lines of the shard, the last one included when its newline is missing. -/
def allLines (f : Shard) : List Text := f.lines ++ if f.tail = [] then [] else [f.tail]

/-- A shard that is not broken is searched line by line. -/
theorem contains_eq (h : f.broken = false) : f.contains u = anyLine u f.allLines := by
  rw [contains, allLines, h]
  by_cases hf : anyLine u f.lines = .ok false
  · rw [hf, anyLine_append_of_false hf]
    by_cases htail : f.tail = []
    · simp [htail, anyLine]
    · simp [htail, anyLine_singleton]
  · rw [anyLine_append_of_ne hf]
    split
    · rename_i hf'
      exact absurd hf' hf
    · rfl

theorem not_broken_of_contains (h : f.contains u = .ok false) : f.broken = false := by
  rw [contains] at h
  split at h
  · cases hb : f.broken with
    | false => rfl
    | true => simp [hb] at h
  · rename_i hne
    exact absurd h hne

/-- The shard with a record written at its end. -/
def grown (f : Shard) (g : Golden) : Shard := ⟨f.number, f.text ++ (g.line ++ ['\n']), false⟩

theorem grown_name (g : Golden) : (f.grown g).name = f.name := rfl

theorem allLines_grown (g : Golden) : (f.grown g).allLines = f.lines ++ [f.tail ++ g.line] := by
  rw [allLines, lines, tail, grown, splitLines_append_line g.newline_not_mem_line]
  simp [lines, tail]

/-- Written behind a newline, the record is the shard's last line. -/
theorem contains_grown_of_false (g : Golden) (htail : f.tail = [])
    (h : f.contains u = .ok false) : (f.grown g).contains u = .ok (g.utteranceId == u) := by
  rw [contains_eq (not_broken_of_contains h), allLines, htail, if_pos rfl, List.append_nil] at h
  rw [contains_eq rfl, allLines_grown, htail, anyLine_append_of_false h, anyLine_singleton,
    List.nil_append, g.lineHas_line]

theorem contains_grown_of_true (g : Golden) (hb : f.broken = false) (htail : f.tail = [])
    (h : f.contains u = .ok true) : (f.grown g).contains u = .ok true := by
  rw [contains_eq hb, allLines, htail, if_pos rfl, List.append_nil] at h
  rw [contains_eq rfl, allLines_grown, anyLine_append_of_ne (by simp [h]), h]

/-- Written behind the rest of a line, it is not found. -/
theorem contains_grown_torn (g : Golden) (htail : f.tail.head? = some '{')
    (h : f.contains u = .ok false) : (f.grown g).contains u = .ok false := by
  have hlines : anyLine u f.lines = .ok false := by
    rw [contains_eq (not_broken_of_contains h), allLines] at h
    by_contra hne
    rw [anyLine_append_of_ne hne] at h
    exact hne h
  rw [contains_eq rfl, allLines_grown, anyLine_append_of_false hlines, anyLine_singleton,
    g.lineHas_torn htail]

end Shard

namespace Corpus

variable {c : Corpus} {u s : Text} {limit : ℕ}

theorem mem_sorted {f : Shard} : f ∈ c.sorted ↔ f ∈ c := List.mem_insertionSort _

theorem firstWith_eq_none {l : List Shard} :
    firstWith u l = .ok none ↔ ∀ f ∈ l, f.contains u = .ok false := by
  induction l with
  | nil => simp [firstWith]
  | cons f l ih =>
    rw [firstWith, List.forall_mem_cons]
    split <;> simp_all

theorem firstWith_eq_some {l : List Shard} : firstWith u l = .ok (some s) ↔
    ∃ before f after, l = before ++ f :: after ∧ (∀ x ∈ before, x.contains u = .ok false) ∧
      f.contains u = .ok true ∧ f.name = s := by
  induction l with
  | nil => simp [firstWith]
  | cons x l ih =>
    rw [firstWith]
    constructor
    · intro h
      split at h
      · rename_i hx
        obtain ⟨before, f, after, rfl, hbefore, hf, hs⟩ := ih.mp h
        exact ⟨x :: before, f, after, rfl, List.forall_mem_cons.mpr ⟨hx, hbefore⟩, hf, hs⟩
      · rename_i hx
        exact ⟨[], x, l, rfl, by simp, hx, by simpa using h⟩
      · simp at h
    · rintro ⟨before, f, after, hl, hbefore, hf, rfl⟩
      cases before with
      | nil =>
        rw [List.nil_append, List.cons.injEq] at hl
        rw [hl.1, hf]
      | cons b before =>
        rw [List.cons_append, List.cons.injEq] at hl
        rw [hl.1, (List.forall_mem_cons.mp hbefore).1]
        exact ih.mpr ⟨before, f, after, hl.2, (List.forall_mem_cons.mp hbefore).2, hf, rfl⟩

theorem findUtterance_eq_none :
    c.findUtterance u = .ok none ↔ ∀ f ∈ c, f.contains u = .ok false := by
  rw [findUtterance, firstWith_eq_none]
  exact forall_congr' fun f ↦ imp_congr_left mem_sorted

/-- The utterance is found in the first shard, by name, that has it, if those before it can be
read. -/
theorem findUtterance_eq_some (hkeys : Tables.Unique Shard.number c) :
    c.findUtterance u = .ok (some s) ↔ ∃ f ∈ c, f.name = s ∧ f.contains u = .ok true ∧
      ∀ x ∈ c, x.name < f.name → x.contains u = .ok false := by
  have hname {x y : Shard} (hx : x ∈ c) (hy : y ∈ c) (h : x.name = y.name) : x = y :=
    hkeys.eq hx hy (shardName_injective h)
  have hsorted : c.sorted.Pairwise fun a b ↦ a.name ≤ b.name := List.pairwise_insertionSort _ _
  rw [findUtterance, firstWith_eq_some]
  constructor
  · rintro ⟨before, f, after, hl, hbefore, hf, rfl⟩
    have hmem : f ∈ c := mem_sorted.mp (by simp [hl])
    refine ⟨f, hmem, rfl, hf, fun x hx hlt ↦ ?_⟩
    rw [← mem_sorted, hl, List.mem_append, List.mem_cons] at hx
    rcases hx with hx | rfl | hx
    · exact hbefore x hx
    · exact absurd hlt (lt_irrefl _)
    · rw [hl] at hsorted
      have hle := (List.pairwise_cons.mp (List.pairwise_append.mp hsorted).2.1).1 x hx
      exact absurd hlt (not_lt.mpr hle)
  · rintro ⟨f, hf, rfl, hcontains, hfirst⟩
    obtain ⟨before, after, hl⟩ := List.append_of_mem (mem_sorted.mpr hf)
    refine ⟨before, f, after, hl, fun x hx ↦ ?_, hcontains, rfl⟩
    rw [hl] at hsorted
    have hxc : x ∈ c := mem_sorted.mp (by simp [hl, hx])
    have hle := (List.pairwise_append.mp hsorted).2.2 x hx f (by simp)
    refine hfirst x hxc (lt_of_le_of_ne hle fun hxf ↦ ?_)
    have hnodup : c.sorted.Nodup := (List.perm_insertionSort _ c).nodup_iff.mpr (hkeys.of_map)
    rw [hl, List.nodup_append'] at hnodup
    exact hnodup.2.2 hx (hname hxc hf hxf ▸ List.mem_cons_self)

/-! ## Writing -/

/-- The shard with a number, empty when there is no such file. -/
def file (c : Corpus) (number : ℕ) : Shard := (c.shard? number).getD ⟨number, [], false⟩

theorem shard?_eq_some (hkeys : Tables.Unique Shard.number c) {n : ℕ} {f : Shard} :
    c.shard? n = some f ↔ f ∈ c ∧ f.number = n :=
  hkeys.find?_eq_some

theorem shard?_eq_none {n : ℕ} : c.shard? n = none ↔ ∀ f ∈ c, f.number ≠ n :=
  Tables.find?_eq_none

/-- The file is one of the shards, or empty. -/
theorem file_cases (hkeys : Tables.Unique Shard.number c) (n : ℕ) :
    (c.file n ∈ c ∧ (c.file n).number = n) ∨
      c.file n = ⟨n, [], false⟩ ∧ ∀ f ∈ c, f.number ≠ n := by
  rw [file]
  cases h : c.shard? n with
  | none => exact .inr ⟨rfl, shard?_eq_none.mp h⟩
  | some f => exact .inl ((shard?_eq_some hkeys).mp h)

theorem mem_write (hkeys : Tables.Unique Shard.number c) {n : ℕ} {text : Text} {broken : Bool}
    {f : Shard} : f ∈ c.write n text broken ↔
      f = ⟨n, (c.file n).text ++ text, broken⟩ ∨ f ∈ c ∧ f.number ≠ n := by
  rw [write]
  rcases file_cases hkeys n with ⟨hmem, hnum⟩ | ⟨hfile, hnone⟩
  · have hany : (c.any fun f ↦ f.number == n) = true :=
      List.any_eq_true.mpr ⟨c.file n, hmem, by simp [hnum]⟩
    rw [if_pos hany, List.mem_map]
    constructor
    · rintro ⟨x, hx, rfl⟩
      split
      · rename_i hxn
        rw [hkeys.eq hx hmem (hxn.trans hnum.symm)]
        exact .inl rfl
      · rename_i hxn
        exact .inr ⟨hx, hxn⟩
    · rintro (rfl | ⟨hf, hne⟩)
      · exact ⟨c.file n, hmem, if_pos hnum⟩
      · exact ⟨f, hf, if_neg hne⟩
  · have hany : ¬ (c.any fun f ↦ f.number == n) = true := by simpa using hnone
    rw [if_neg hany, hfile, List.mem_append, List.mem_singleton, or_comm]
    exact or_congr_right (iff_self_and.mpr fun hf ↦ hnone f hf)

theorem unique_write (hkeys : Tables.Unique Shard.number c) (n : ℕ) (text : Text)
    (broken : Bool) : Tables.Unique Shard.number (c.write n text broken) := by
  rw [write]
  split
  · have hmap : (c.map fun f ↦ if f.number = n then ⟨n, f.text ++ text, broken⟩ else f).map
        Shard.number = c.map Shard.number := by
      rw [List.map_map]
      refine List.map_congr_left fun f _ ↦ ?_
      rw [Function.comp_apply]
      split
      · rename_i hf
        exact hf.symm
      · rfl
    rw [Tables.Unique, hmap]
    exact hkeys
  · rename_i hany
    exact hkeys.append (by simpa using hany)

/-- A corpus all of which can be read has a shard to write to. -/
theorem exists_currentShard (h : ∀ f ∈ c, f.broken = false) (limit : ℕ) :
    ∃ n, c.currentShard limit = .ok n := by
  rw [currentShard]
  cases hf : c.shard? ((c.map Shard.number).max?.getD 1) with
  | none => exact ⟨_, rfl⟩
  | some f =>
    have hb := h f (List.mem_of_find?_eq_some hf)
    dsimp only
    rw [Shard.lineCount, if_neg (by simp [hb])]
    exact ⟨_, rfl⟩

section

variable {g : Golden} {cut : Option Cut}

/-- The call up to the search. -/
private theorem appendCut_eq (r : Except CorpusError (Option Text))
    (h : c.findUtterance g.utteranceId = r) (hr : ∀ x, r = .ok x → x ≠ none) :
    c.appendCut limit g.json cut = (r.map (·.getD []), c) := by
  rw [appendCut, show g.json.get? "utterance_id".toList = some (.str g.utteranceId) from g.lookup]
  dsimp only
  rw [if_neg g.named, h]
  match r, hr with
  | .error e, _ => rfl
  | .ok (some existing), _ => rfl
  | .ok none, hr => exact absurd rfl (hr none rfl)

theorem appendCut_of_error {e : CorpusError} (h : c.findUtterance g.utteranceId = .error e) :
    c.appendCut limit g.json cut = (.error e, c) :=
  appendCut_eq _ h (by simp)

/-- A record that is there already is not written again. -/
theorem appendCut_of_found {existing : Text}
    (h : c.findUtterance g.utteranceId = .ok (some existing)) :
    c.appendCut limit g.json cut = (.ok existing, c) :=
  appendCut_eq _ h (by simp)

/-- Any other goes to the end of the current shard. -/
theorem exists_appendCut_of_none (h : c.findUtterance g.utteranceId = .ok none) :
    ∃ n, c.currentShard limit = .ok n ∧ c.appendCut limit g.json cut = (.ok (shardName n),
      c.write n (Cut.written g.line cut).1 (Cut.written g.line cut).2) := by
  obtain ⟨n, hn⟩ := exists_currentShard
    (fun f hf ↦ Shard.not_broken_of_contains (findUtterance_eq_none.mp h f hf)) limit
  refine ⟨n, hn, ?_⟩
  rw [appendCut, show g.json.get? "utterance_id".toList = some (.str g.utteranceId) from g.lookup]
  dsimp only
  rw [if_neg g.named, h]
  dsimp only
  rw [hn]
  rfl

end

end Corpus

/-! ## The corpora a writer leaves behind -/

/-- What any number of calls of `append`, each of which may be cut off, make of an empty corpus
directory. -/
inductive Corpus.Reach (limit : ℕ) : Corpus → Prop
  | empty : Reach limit []
  | append {c : Corpus} (h : Reach limit c) (g : Golden) (cut : Option Cut)
      (hcut : ∀ x ∈ cut, x.Within g.line) : Reach limit (c.appendCut limit g.json cut).2

/-- The shards have different numbers, and a line that lacks its newline begins with a brace. -/
structure Corpus.Sound (c : Corpus) : Prop where
  keys : Tables.Unique Shard.number c
  tails : ∀ f ∈ c, f.tail = [] ∨ f.tail.head? = some '{'

namespace Corpus

variable {c : Corpus} {limit : ℕ} {g : Golden}

theorem Sound.file (h : c.Sound) (n : ℕ) :
    (c.file n).tail = [] ∨ (c.file n).tail.head? = some '{' := by
  rcases file_cases h.keys n with ⟨hmem, -⟩ | ⟨hfile, -⟩
  · exact h.tails _ hmem
  · rw [hfile]
    exact .inl rfl

theorem Sound.write (h : c.Sound) (n : ℕ) (cut : Option Cut) :
    (c.write n (Cut.written g.line cut).1 (Cut.written g.line cut).2).Sound where
  keys := unique_write h.keys n _ _
  tails := by
    intro f hf
    rcases (mem_write h.keys).mp hf with rfl | ⟨hf, -⟩
    · cases cut with
      | none =>
        left
        rw [Shard.tail, Cut.written, splitLines_append_line g.newline_not_mem_line]
      | some cut =>
        have hnewline : '\n' ∉ g.line.take cut.chars := fun hn ↦
          g.newline_not_mem_line ((List.take_subset _ _) hn)
        rw [Shard.tail, Cut.written, splitLines_append hnewline]
        rcases h.file n with hfile | hfile
        · rw [Shard.tail] at hfile
          rw [hfile, List.nil_append]
          obtain ⟨body, hbody⟩ := Json.exists_dumps_obj g.members
          rw [show g.line = '{' :: body ++ ['}'] from hbody]
          cases cut.chars <;> simp
        · right
          rw [Shard.tail] at hfile
          rw [List.head?_append, hfile]
          rfl
    · exact h.tails f hf

theorem Sound.appendCut (h : c.Sound) (cut : Option Cut) :
    (c.appendCut limit g.json cut).2.Sound := by
  match hfind : c.findUtterance g.utteranceId with
  | .error e =>
    rw [appendCut_of_error hfind]
    exact h
  | .ok (some existing) =>
    rw [appendCut_of_found hfind]
    exact h
  | .ok none =>
    obtain ⟨n, -, heq⟩ : ∃ n, c.currentShard limit = .ok n ∧ c.appendCut limit g.json cut = _ :=
      exists_appendCut_of_none hfind
    rw [heq]
    exact h.write n cut

theorem Reach.sound (h : Reach limit c) : c.Sound := by
  induction h with
  | empty => exact ⟨Tables.Unique.nil, by simp⟩
  | append _ g cut _ ih => exact ih.appendCut cut

/-! ## What an append leaves behind -/

/-- The utterance can be found. -/
def Located (c : Corpus) (u : Text) : Prop := ∃ s, c.findUtterance u = .ok (some s)

/-- After the record has been appended to the shard `s`: it is found there, on a line that reads as
the record or was stored under its name before, and what was found before is found still. -/
structure Survives (c c' : Corpus) (g : Golden) (s : Text) : Prop where
  found : c'.findUtterance g.utteranceId = .ok (some s)
  line : ∃ f ∈ c', f.name = s ∧ ∃ l ∈ f.allLines, Json.loads (strip l) = some g.json ∨
    lineHas g.utteranceId l = .ok true ∧ ∃ f₀ ∈ c, f₀.name = s ∧ l ∈ f₀.allLines
  kept : ∀ u, c.Located u → c'.Located u

/-- Unless the record is found, the shard it goes to is new, empty or ends with a newline. -/
def Ready (limit : ℕ) (c : Corpus) (g : Golden) : Prop :=
  c.findUtterance g.utteranceId = .ok none →
    ∀ n, c.currentShard limit = .ok n → (c.file n).tail = []

theorem exists_line_of_contains {f : Shard} {u : Text} (h : f.contains u = .ok true) :
    ∃ l ∈ f.allLines, lineHas u l = .ok true := by
  have hany (ls : List Text) (h : anyLine u ls = .ok true) : ∃ l ∈ ls, lineHas u l = .ok true := by
    induction ls with
    | nil => simp [anyLine] at h
    | cons l ls ih =>
      rw [anyLine] at h
      split at h
      · obtain ⟨l', hl', hu⟩ := ih h
        exact ⟨l', List.mem_cons_of_mem _ hl', hu⟩
      · exact ⟨l, List.mem_cons_self, h⟩
  rw [Shard.contains] at h
  split at h
  · split_ifs at h with hb htail
    · simp at h
    · exact ⟨f.tail, by simp [Shard.allLines, htail], h⟩
  · obtain ⟨l, hl, hu⟩ := hany _ h
    exact ⟨l, List.mem_append_left _ hl, hu⟩

theorem file_number (hkeys : Tables.Unique Shard.number c) (n : ℕ) : (c.file n).number = n := by
  rcases file_cases hkeys n with ⟨-, hnum⟩ | ⟨hfile, -⟩
  · exact hnum
  · rw [hfile]

theorem contains_file (hkeys : Tables.Unique Shard.number c) {u : Text}
    (h : ∀ f ∈ c, f.contains u = .ok false) (n : ℕ) : (c.file n).contains u = .ok false := by
  rcases file_cases hkeys n with ⟨hmem, -⟩ | ⟨hfile, -⟩
  · exact h _ hmem
  · rw [hfile]
    rfl

/-- The shards after a record has been written to shard `n`. -/
theorem mem_written (hkeys : Tables.Unique Shard.number c) {n : ℕ} {f : Shard} :
    f ∈ c.write n (g.line ++ ['\n']) false ↔
      f = (c.file n).grown g ∨ f ∈ c ∧ f.number ≠ n := by
  rw [mem_write hkeys, Shard.grown, file_number hkeys]

/-- Behind a newline the record survives, and all others with it. -/
theorem survives_of_tail (h : c.Sound) {n : ℕ} (hfind : c.findUtterance g.utteranceId = .ok none)
    (htail : (c.file n).tail = []) :
    Survives c (c.write n (g.line ++ ['\n']) false) g (shardName n) := by
  have hkeys' := unique_write h.keys n (g.line ++ ['\n']) false
  have hnone := findUtterance_eq_none.mp hfind
  have hname : ((c.file n).grown g).name = shardName n := congrArg shardName (file_number h.keys n)
  have hgrown : (c.file n).grown g ∈ c.write n (g.line ++ ['\n']) false :=
    (mem_written h.keys).mpr (.inl rfl)
  constructor
  · refine (findUtterance_eq_some hkeys').mpr ⟨_, hgrown, hname, ?_, fun x hx hlt ↦ ?_⟩
    · rw [Shard.contains_grown_of_false g htail (contains_file h.keys hnone n), beq_self_eq_true]
    · rcases (mem_written h.keys).mp hx with rfl | ⟨hx, -⟩
      · exact absurd hlt (lt_irrefl _)
      · exact hnone x hx
  · refine ⟨_, hgrown, hname, g.line, ?_, .inl ?_⟩
    · rw [Shard.allLines_grown, htail]
      simp
    · rw [show strip g.line = g.line from g.strip_append_line (s := []) (.inl rfl)]
      exact Json.loads_dumps g.proper
  · rintro u ⟨s, hs⟩
    obtain ⟨f, hf, rfl, hcontains, hfirst⟩ := (findUtterance_eq_some h.keys).mp hs
    have hne : (g.utteranceId == u) = false := by
      refine beq_false_of_ne ?_
      rintro rfl
      simp [hnone f hf] at hcontains
    -- a shard that was passed over is passed over with the new record in it, too
    have hpassed : ∀ x ∈ c.write n (g.line ++ ['\n']) false, x.name < f.name →
        x.contains u = .ok false := by
      intro x hx hlt
      rcases (mem_written h.keys).mp hx with rfl | ⟨hx, -⟩
      · rw [Shard.grown_name] at hlt
        have hold : (c.file n).contains u = .ok false := by
          rcases file_cases h.keys n with ⟨hmem, -⟩ | ⟨hfile, -⟩
          · exact hfirst _ hmem hlt
          · rw [hfile]
            rfl
        rw [Shard.contains_grown_of_false g htail hold, hne]
      · exact hfirst x hx hlt
    by_cases hfn : f.number = n
    · have hfile : c.file n = f := by
        rw [file, (shard?_eq_some h.keys).mpr ⟨hf, hfn⟩]
        rfl
      refine ⟨f.name,
        (findUtterance_eq_some hkeys').mpr ⟨f.grown g, hfile ▸ hgrown, rfl, ?_, hpassed⟩⟩
      exact Shard.contains_grown_of_true g (Shard.not_broken_of_contains (hnone f hf))
        (hfile ▸ htail) hcontains
    · exact ⟨f.name, (findUtterance_eq_some hkeys').mpr
        ⟨f, (mem_written h.keys).mpr (.inr ⟨hf, hfn⟩), rfl, hcontains, hpassed⟩⟩

/-- Behind the rest of another line it is not found. -/
theorem findUtterance_of_torn (h : c.Sound) {n : ℕ}
    (hfind : c.findUtterance g.utteranceId = .ok none) (htail : (c.file n).tail ≠ []) :
    (c.write n (g.line ++ ['\n']) false).findUtterance g.utteranceId = .ok none := by
  have hnone := findUtterance_eq_none.mp hfind
  refine findUtterance_eq_none.mpr fun f hf ↦ ?_
  rcases (mem_written h.keys).mp hf with rfl | ⟨hf, -⟩
  · exact Shard.contains_grown_torn g ((h.file n).resolve_left htail)
      (contains_file h.keys hnone n)
  · exact hnone f hf

/-! ## The result -/

/-- **An append survives a torn line if and only if it does not follow one.**  Whatever calls, cut
off anywhere, have left in the corpus directory: when `append` returns a shard, the record is found
in it and nothing that was found before is lost, exactly when the record was there already or its
line begins behind a newline. -/
theorem append_survives (hc : Reach limit c) (g : Golden) :
    (∀ s, (c.append limit g.json).1 = .ok s → Survives c (c.append limit g.json).2 g s) ↔
      c.Ready limit g := by
  have hsound := hc.sound
  rw [append]
  match hfind : c.findUtterance g.utteranceId with
  | .error e =>
    rw [appendCut_of_error hfind]
    exact iff_of_true (by simp) (by simp [Ready, hfind])
  | .ok (some existing) =>
    rw [appendCut_of_found hfind]
    refine iff_of_true (fun s hs ↦ ?_) (by simp [Ready, hfind])
    cases hs
    obtain ⟨f, hf, hname, hcontains, -⟩ := (findUtterance_eq_some hsound.keys).mp hfind
    obtain ⟨l, hl, hhas⟩ := exists_line_of_contains hcontains
    exact ⟨hfind, ⟨f, hf, hname, l, hl, .inr ⟨hhas, f, hf, hname, hl⟩⟩, fun _ ↦ id⟩
  | .ok none =>
    obtain ⟨n, hn, heq⟩ : ∃ n, c.currentShard limit = .ok n ∧ c.appendCut limit g.json none = _ :=
      exists_appendCut_of_none hfind
    rw [heq]
    constructor
    · intro hsurvives _ m hm
      cases hn.symm.trans hm
      by_contra htail
      have hlost := findUtterance_of_torn hsound hfind htail
      have := (hsurvives _ rfl).found
      rw [Cut.written, hlost] at this
      simp at this
    · intro hready s hs
      cases hs
      exact survives_of_tail hsound hfind (hready hfind n hn)

end Corpus

/-! ## Two records -/

/-- The smallest record with a name. -/
def shortRecord (utteranceId : Text) (named : utteranceId ≠ []) : Golden where
  members := [("utterance_id".toList, .str utteranceId)]
  proper := by simp [Json.Proper, Json.ProperMembers]
  utteranceId := utteranceId
  named := named
  lookup := rfl

/-- The corpus after the first record has been written up to its newline. -/
def withoutNewline (limit : ℕ) : Corpus :=
  (Corpus.appendCut limit [] (shortRecord ['a'] (by decide)).json (some ⟨20, false⟩)).2

theorem reach_withoutNewline (limit : ℕ) : Corpus.Reach limit (withoutNewline limit) :=
  .append .empty (shortRecord ['a'] (by decide)) (some ⟨20, false⟩) fun x hx ↦ by
    rw [← Option.some.inj hx]
    exact ⟨by decide +kernel, by simp⟩

/-- When a shard holds one record only, the next one is out of danger. -/
theorem append_survives_rotation :
    ((withoutNewline 1).append 1 (shortRecord ['b'] (by decide)).json).1 = .ok (shardName 2) ∧
      Corpus.Survives (withoutNewline 1)
        ((withoutNewline 1).append 1 (shortRecord ['b'] (by decide)).json).2
        (shortRecord ['b'] (by decide)) (shardName 2) := by
  have hok : ((withoutNewline 1).append 1 (shortRecord ['b'] (by decide)).json).1 =
      .ok (shardName 2) := by decide +kernel
  refine ⟨hok, (Corpus.append_survives (reach_withoutNewline 1) _).mpr (fun _ n hn ↦ ?_) _ hok⟩
  have : (withoutNewline 1).currentShard 1 = .ok 2 := by decide +kernel
  cases this.symm.trans hn
  decide +kernel

/-- **Two records on one line.**  The second record is appended behind the first, whose newline is
missing: the call returns, and neither of the two is found any more. -/
theorem append_loses : Corpus.Reach 500 (withoutNewline 500) ∧
    (withoutNewline 500).findUtterance ['a'] = .ok (some (shardName 1)) ∧
    ((withoutNewline 500).append 500 (shortRecord ['b'] (by decide)).json).1 =
      .ok (shardName 1) ∧
    ((withoutNewline 500).append 500 (shortRecord ['b'] (by decide)).json).2.findUtterance ['b'] =
      .ok none ∧
    ((withoutNewline 500).append 500 (shortRecord ['b'] (by decide)).json).2.findUtterance ['a'] =
      .ok none := by
  refine ⟨reach_withoutNewline 500, ?_, ?_, ?_, ?_⟩ <;> decide +kernel

end Neva
