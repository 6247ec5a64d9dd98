import Mathlib.Logic.Relation
import Neva.Worker.TornTail

/-!
# Shards in rotation

`CorpusWriter._current_shard` of `worker/corpus.py` writes to the shard with the highest number
until it counts `shard_record_limit` lines, and then to the next one.  A write may be cut off
anywhere, and what it leaves behind counts as a line.

Whatever is appended and wherever it is cut off, the shards are numbered from one without a gap and
all but the last have exactly `shard_record_limit` lines (`Corpus.Rotated`).  Only the last one is
written to: a shard that is full stays as it is, and the corpus, read in the order of the numbers,
only grows at its end (`Corpus.rotated_of_appends`).
-/

set_option autoImplicit false

namespace Neva

namespace Corpus

/-- One call of `append`, which may be cut off. -/
def Appends (limit : ℕ) (c c' : Corpus) : Prop :=
  ∃ (g : Golden) (cut : Option Cut), (∀ x ∈ cut, x.Within g.line) ∧
    c' = (c.appendCut limit g.json cut).2

/-- The shards are numbered without a gap, and all but the last are full. -/
structure Rotated (limit : ℕ) (c : Corpus) : Prop where
  numbers : c.map Shard.number = List.range' 1 c.length
  bounded : ∀ f ∈ c, f.allLines.length ≤ limit
  full : ∀ f ∈ c, f.number < c.length → f.allLines.length = limit

/-- The text of the corpus, one shard after the other. -/
def text (c : Corpus) : Text := c.flatMap Shard.text

/-- The first corpus has become the second one: every full shard is unchanged, the last one as well,
and the text has only grown at its end. -/
structure Extends (limit : ℕ) (c c' : Corpus) : Prop where
  text : c.text <+: c'.text
  kept : ∀ f ∈ c, f.allLines.length = limit → f ∈ c'
  length : c.length ≤ c'.length

variable {c c' : Corpus} {limit : ℕ} {g : Golden}

theorem Extends.refl (c : Corpus) : Extends limit c c :=
  ⟨List.prefix_rfl, fun _ hf _ ↦ hf, le_rfl⟩

theorem Extends.trans {c'' : Corpus} (h : Extends limit c c') (h' : Extends limit c' c'') :
    Extends limit c c'' where
  text := h.text.trans h'.text
  kept f hf hfull := h'.kept f (h.kept f hf hfull) hfull
  length := h.length.trans h'.length

/-! ## What is written -/

theorem lineCount_eq {f : Shard} (h : f.broken = false) : f.lineCount = .ok f.allLines.length := by
  rw [Shard.lineCount, if_neg (by simp [h]), Shard.allLines, List.length_append]
  split <;> rfl

/-- A record adds at most one line, also when it is cut off. -/
theorem length_allLines_written (f : Shard) (n : ℕ) (broken : Bool) (cut : Option Cut) :
    (Shard.allLines ⟨n, f.text ++ (Cut.written g.line cut).1, broken⟩).length ≤
      f.allLines.length + 1 := by
  have hle : f.lines.length ≤ f.allLines.length := by simp [Shard.allLines]
  have hlines : (splitLines (f.text ++ (Cut.written g.line cut).1)).1.length ≤ f.lines.length ∨
      (splitLines (f.text ++ (Cut.written g.line cut).1)).1.length = f.lines.length + 1 ∧
        (splitLines (f.text ++ (Cut.written g.line cut).1)).2 = [] := by
    cases cut with
    | none =>
      rw [Cut.written, splitLines_append_line g.newline_not_mem_line]
      exact .inr ⟨by simp [Shard.lines], rfl⟩
    | some cut =>
      have hnewline : '\n' ∉ g.line.take cut.chars := fun hn ↦
        g.newline_not_mem_line (List.take_subset _ _ hn)
      rw [Cut.written, splitLines_append hnewline]
      exact .inl le_rfl
  rw [Shard.allLines, List.length_append, Shard.lines, Shard.tail]
  dsimp only
  rcases hlines with hlines | ⟨hlines, htail⟩
  · split_ifs <;> simp only [List.length_nil, List.length_singleton] <;> omega
  · rw [if_pos htail, hlines, List.length_nil]
    omega

/-! ## The current shard -/

namespace Rotated

/-- The last shard has the highest number. -/
theorem cases (h : c.Rotated limit) : c = [] ∨ ∃ full f, c = full ++ [f] ∧
    f.number = full.length + 1 ∧ ∀ x ∈ full, x.number < full.length + 1 := by
  rcases List.eq_nil_or_concat c with rfl | ⟨full, f, rfl⟩
  · exact .inl rfl
  · have hnumbers := h.numbers
    rw [List.concat_eq_append, List.length_append, List.length_singleton, List.map_append,
      List.map_singleton, List.range'_concat, Nat.one_mul] at hnumbers
    obtain ⟨hfull, hlast⟩ := List.append_inj hnumbers (by simp)
    refine .inr ⟨full, f, List.concat_eq_append, ?_, fun x hx ↦ ?_⟩
    · rw [List.cons.inj hlast |>.1, Nat.add_comm]
    · have hmem : x.number ∈ List.range' 1 full.length := hfull ▸ List.mem_map_of_mem hx
      have := List.mem_range'_1.mp hmem
      omega

/-- The record goes to the last shard while that is not full, and then to a new one. -/
theorem currentShard_eq {full : List Shard} {f : Shard} (hnumber : f.number = full.length + 1)
    (hfull : ∀ x ∈ full, x.number < full.length + 1) (hread : f.broken = false) :
    currentShard (full ++ [f]) limit =
      .ok (if limit ≤ f.allLines.length then full.length + 2 else full.length + 1) := by
  have hmax : ((full ++ [f]).map Shard.number).max? = some (full.length + 1) := by
    rw [List.max?_eq_some_iff]
    refine ⟨List.mem_map.mpr ⟨f, by simp, hnumber⟩, fun n hn ↦ ?_⟩
    obtain ⟨x, hx, rfl⟩ := List.mem_map.mp hn
    rcases List.mem_append.mp hx with hx | hx
    · exact (hfull x hx).le
    · rw [List.mem_singleton.mp hx, hnumber]
  have hfind : shard? (full ++ [f]) (full.length + 1) = some f := by
    have hnone : full.find? (fun x ↦ x.number == full.length + 1) = none :=
      List.find?_eq_none.mpr fun x hx ↦ by simpa using (hfull x hx).ne
    rw [shard?, List.find?_append, hnone]
    simp [hnumber]
  rw [currentShard, hmax]
  dsimp only [Option.getD_some]
  rw [hfind]
  dsimp only
  rw [lineCount_eq hread]

theorem write_last {full : List Shard} {f : Shard} (hnumber : f.number = full.length + 1)
    (hfull : ∀ x ∈ full, x.number < full.length + 1) (text : Text) (broken : Bool) :
    write (full ++ [f]) (full.length + 1) text broken =
      full ++ [⟨full.length + 1, f.text ++ text, broken⟩] := by
  have hsame : full.map (fun x ↦ if x.number = full.length + 1 then
      ⟨full.length + 1, x.text ++ text, broken⟩ else x) = full := by
    conv_rhs => rw [← List.map_id full]
    exact List.map_congr_left fun x hx ↦ if_neg (hfull x hx).ne
  rw [write, if_pos (by simp [hnumber]), List.map_append, hsame]
  simp [hnumber]

theorem write_new {full : List Shard} (hfull : ∀ x ∈ full, x.number < full.length + 1)
    (text : Text) (broken : Bool) :
    write full (full.length + 1) text broken = full ++ [⟨full.length + 1, text, broken⟩] := by
  have hnone : (full.any fun x ↦ x.number == full.length + 1) = false := by
    rw [List.any_eq_false]
    exact fun x hx ↦ by simpa using (hfull x hx).ne
  rw [write, hnone]
  rfl

/-! ## One append -/

/-- A shard takes the place of the last one. -/
theorem replace {full : List Shard} {f f' : Shard} (h : Rotated limit (full ++ [f]))
    (hnumber : f'.number = f.number) (hf : f.number = full.length + 1)
    (hbounded : f'.allLines.length ≤ limit) : Rotated limit (full ++ [f']) where
  numbers := by
    have := h.numbers
    simpa [hnumber] using this
  bounded x hx := by
    rcases List.mem_append.mp hx with hx | hx
    · exact h.bounded x (List.mem_append_left _ hx)
    · exact List.mem_singleton.mp hx ▸ hbounded
  full x hx hlt := by
    rcases List.mem_append.mp hx with hx | hx
    · exact h.full x (List.mem_append_left _ hx) (by simpa using hlt)
    · rw [List.mem_singleton.mp hx, hnumber, hf, List.length_append] at hlt
      exact absurd hlt (by simp)

/-- A shard is added when the last one is full. -/
theorem add {f : Shard} (h : c.Rotated limit) (hnumber : f.number = c.length + 1)
    (hbounded : f.allLines.length ≤ limit)
    (hlast : ∀ x ∈ c, x.number = c.length → x.allLines.length = limit) :
    Rotated limit (c ++ [f]) where
  numbers := by
    rw [List.map_append, List.map_singleton, h.numbers, hnumber, List.length_append,
      List.length_singleton, List.range'_concat, Nat.one_mul, Nat.add_comm]
  bounded x hx := by
    rcases List.mem_append.mp hx with hx | hx
    · exact h.bounded x hx
    · exact List.mem_singleton.mp hx ▸ hbounded
  full x hx hlt := by
    rw [List.length_append, List.length_singleton] at hlt
    rcases List.mem_append.mp hx with hx | hx
    · rcases Nat.lt_succ_iff_lt_or_eq.mp hlt with hlt | heq
      · exact h.full x hx hlt
      · exact hlast x hx heq
    · rw [List.mem_singleton.mp hx, hnumber] at hlt
      exact absurd hlt (lt_irrefl _)

/-- One call, wherever it is cut off. -/
theorem appendCut (hlimit : 0 < limit) (h : c.Rotated limit) (g : Golden) (cut : Option Cut) :
    (c.appendCut limit g.json cut).2.Rotated limit ∧
      Extends limit c (c.appendCut limit g.json cut).2 := by
  match hfind : c.findUtterance g.utteranceId with
  | .error e =>
    rw [appendCut_of_error hfind]
    exact ⟨h, .refl c⟩
  | .ok (some existing) =>
    rw [appendCut_of_found hfind]
    exact ⟨h, .refl c⟩
  | .ok none =>
    obtain ⟨n, hn, heq⟩ : ∃ n, c.currentShard limit = .ok n ∧
        c.appendCut limit g.json cut = _ := exists_appendCut_of_none hfind
    rw [heq]
    dsimp only
    -- a shard that is created has one line at most
    have hnew : ∀ n broken,
        (Shard.allLines ⟨n, (Cut.written g.line cut).1, broken⟩).length ≤ limit := fun n broken ↦
      (length_allLines_written ⟨n, [], false⟩ n broken cut).trans hlimit
    rcases h.cases with rfl | ⟨full, f, rfl, hnumber, hfull⟩
    · obtain rfl : 1 = n := Except.ok.inj hn
      rw [show (1 : ℕ) = List.length ([] : Corpus) + 1 from rfl, write_new (by simp)]
      exact ⟨h.add rfl (hnew _ _) (by simp), List.nil_prefix, by simp, by simp⟩
    · have hread := Shard.not_broken_of_contains
        (findUtterance_eq_none.mp hfind f (List.mem_append_right _ List.mem_cons_self))
      rw [currentShard_eq hnumber hfull hread] at hn
      have hcount := h.bounded f (List.mem_append_right _ List.mem_cons_self)
      split_ifs at hn with hlines
      · obtain rfl := Except.ok.inj hn
        have hlt : ∀ x ∈ full ++ [f], x.number < (full ++ [f]).length + 1 := fun x hx ↦ by
          rw [List.length_append, List.length_singleton]
          rcases List.mem_append.mp hx with hx | hx
          · exact (hfull x hx).trans (Nat.lt_succ_self _)
          · rw [List.mem_singleton.mp hx, hnumber]
            exact Nat.lt_succ_self _
        rw [show full.length + 2 = (full ++ [f]).length + 1 by simp, write_new hlt]
        refine ⟨h.add rfl (hnew _ _) fun x hx hlast ↦ ?_, ?_, fun x hx _ ↦ ?_, by simp⟩
        · rw [List.length_append, List.length_singleton] at hlast
          rcases List.mem_append.mp hx with hx | hx
          · exact absurd hlast (hfull x hx).ne
          · rw [List.mem_singleton.mp hx]
            exact hcount.antisymm hlines
        · rw [Corpus.text, Corpus.text, @List.flatMap_append _ _ (full ++ [f])]
          exact List.prefix_append _ _
        · exact List.mem_append_left _ hx
      · obtain rfl := Except.ok.inj hn
        rw [write_last hnumber hfull]
        have hle := length_allLines_written (g := g) f (full.length + 1)
          (Cut.written g.line cut).2 cut
        refine ⟨h.replace hnumber.symm hnumber (hle.trans (by omega)), ?_, fun x hx hcount ↦ ?_,
          by simp⟩
        · rw [Corpus.text, Corpus.text, List.flatMap_append, List.flatMap_append]
          simp [List.prefix_append_right_inj]
        · rcases List.mem_append.mp hx with hx | hx
          · exact List.mem_append_left _ hx
          · -- the shard that is written to is not full
            rw [List.mem_singleton.mp hx] at hcount
            exact absurd hcount.ge hlines

end Rotated

theorem rotated_nil (limit : ℕ) : Rotated limit [] := ⟨rfl, by simp, by simp⟩

theorem Rotated.of_reach (hlimit : 0 < limit) (h : Reach limit c) : c.Rotated limit := by
  induction h with
  | empty => exact rotated_nil limit
  | append _ g cut _ ih => exact (ih.appendCut hlimit g cut).1

/-- **The corpus only grows at its end.**  Whatever calls of `append` are made, and wherever they
are cut off, the shards are numbered without a gap, all but the last are full, a shard that is full
does not change, and what has been written in the order of the numbers stays. -/
theorem rotated_of_appends (hlimit : 0 < limit) (hc : Reach limit c)
    (h : Relation.ReflTransGen (Appends limit) c c') :
    c'.Rotated limit ∧ Extends limit c c' := by
  induction h with
  | refl => exact ⟨.of_reach hlimit hc, .refl c⟩
  | tail _ hstep ih =>
    obtain ⟨g, cut, -, rfl⟩ := hstep
    obtain ⟨hrotated, hextends⟩ := ih.1.appendCut hlimit g cut
    exact ⟨hrotated, ih.2.trans hextends⟩

/-- A record whose newline is missing is the only line of the first shard, and the next one goes to
the second shard. -/
theorem rotated_of_appends_torn :
    (((withoutNewline 1).append 1 (shortRecord ['b'] (by decide)).json).2.Rotated 1 ∧
      Extends 1 (withoutNewline 1)
        ((withoutNewline 1).append 1 (shortRecord ['b'] (by decide)).json).2) ∧
    ((withoutNewline 1).append 1 (shortRecord ['b'] (by decide)).json).2.length = 2 :=
  ⟨rotated_of_appends (by decide) (reach_withoutNewline 1)
    (.single ⟨shortRecord ['b'] (by decide), none, by simp, rfl⟩), by decide +kernel⟩

end Corpus

end Neva
