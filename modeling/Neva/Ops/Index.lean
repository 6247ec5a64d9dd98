import Neva.Ops.Integrity

/-!
# The text of a checksum index

`finalize-backup` writes one line for each file, and `parse_checksums` reads the lines back.  What
ends a line is `\n` for the writer; for the reader it is every character `splitlines` knows.  So the
index is read back as it was written (`parseLines_of_lines`) if no path has such a character in
it, and no path that was read has one (`unbroken_of_parseLines`).
-/

set_option autoImplicit false

namespace Neva.Ops

open Raising

/-! ## Lines -/

/-- No character of the text ends a line. -/
def Unbroken (s : List Sym) : Prop := ∀ c, Sym.char c ∈ s → isLineBreak c = false

theorem splitlines_cons {c : Char} (hc : isLineBreak c = false) (s : Text) :
    splitlines (c :: s) = match splitlines s with
      | [] => [[c]]
      | line :: lines => (c :: line) :: lines := by
  have hr : c ≠ '\r' := by
    rintro rfl
    revert hc
    decide
  rw [splitlines, hc]
  · rfl
  · exact fun _ h _ ↦ hr h

theorem splitlines_newline (s : Text) : splitlines ('\n' :: s) = [] :: splitlines s := by
  rw [splitlines]
  · rfl
  · exact fun _ h _ ↦ absurd h (by decide)

/-- A line, and what comes after it. -/
theorem splitlines_line {line : Text} (h : ∀ c ∈ line, isLineBreak c = false) (rest : Text) :
    splitlines (line ++ '\n' :: rest) = line :: splitlines rest := by
  induction line with
  | nil => exact splitlines_newline rest
  | cons c line ih =>
    obtain ⟨hc, hline⟩ := List.forall_mem_cons.mp h
    rw [List.cons_append, splitlines_cons hc, ih hline]

theorem splitlines_lines {lines : List Text}
    (h : ∀ line ∈ lines, ∀ c ∈ line, isLineBreak c = false) :
    splitlines (lines.flatMap fun line ↦ line ++ ['\n']) = lines := by
  induction lines with
  | nil => rfl
  | cons line lines ih =>
    obtain ⟨hline, hlines⟩ := List.forall_mem_cons.mp h
    rw [List.flatMap_cons, List.append_assoc, List.singleton_append, splitlines_line hline,
      ih hlines]

/-- The lines of a text have no line breaks in them. -/
theorem unbroken_of_splitlines (text : Text) :
    ∀ line ∈ splitlines text, ∀ c ∈ line, isLineBreak c = false := by
  fun_induction splitlines text with
  | case1 => simp
  | case2 s ih => simpa using ih
  | case3 c s _ _ ih => simpa using ih
  | case4 c s _ hc hs ih =>
    simp only [Bool.not_eq_true] at hc
    simpa using hc
  | case5 c s _ hc line lines hs ih =>
    simp only [Bool.not_eq_true] at hc
    rw [hs] at ih
    obtain ⟨hline, hlines⟩ := List.forall_mem_cons.mp ih
    exact List.forall_mem_cons.mpr ⟨List.forall_mem_cons.mpr ⟨hc, hline⟩, hlines⟩

theorem intercalate_append_newline (lines : List (List Sym)) :
    checksumsText lines = lines.flatMap fun line ↦ line ++ [.char '\n'] := by
  induction lines with
  | nil => rfl
  | cons line lines ih =>
    rw [checksumsText] at ih
    rw [checksumsText, if_neg (List.cons_ne_nil line lines), List.flatMap_cons, ← ih]
    cases lines with
    | nil => simp [List.intercalate]
    | cons line' lines => simp [List.intercalate]

/-! ## Texts that can be written -/

theorem name_append (a b : Text) : name (a ++ b) = name a ++ name b := List.map_append

/-- The parts of a text that can be written can be written. -/
theorem exists_name_of_append {a b : List Sym} {text : Text} (h : a ++ b = name text) :
    ∃ ta tb, a = name ta ∧ b = name tb ∧ text = ta ++ tb := by
  obtain ⟨ta, tb, htext, ha, hb⟩ := List.map_eq_append_iff.mp h.symm
  exact ⟨ta, tb, ha.symm, hb.symm, htext⟩

theorem exists_name_of_flatMap {lines : List (List Sym)} {text : Text}
    (h : lines.flatMap (fun line ↦ line ++ [.char '\n']) = name text) :
    ∃ texts : List Text, lines = texts.map name ∧
      text = texts.flatMap fun line ↦ line ++ ['\n'] := by
  induction lines generalizing text with
  | nil =>
    refine ⟨[], rfl, ?_⟩
    exact List.map_eq_nil_iff.mp h.symm
  | cons line lines ih =>
    rw [List.flatMap_cons] at h
    obtain ⟨ta, tb, hta, htb, rfl⟩ := exists_name_of_append h
    obtain ⟨tl, tn, rfl, hn, rfl⟩ := exists_name_of_append hta
    obtain ⟨texts, rfl, rfl⟩ := ih htb
    have hn : tn = ['\n'] := name_injective hn.symm
    subst hn
    exact ⟨tl :: texts, rfl, rfl⟩

/-! ## Paths -/

/-- A path whose names can be written. -/
theorem exists_parts {p : Path} {text : Text} (hp : p ≠ []) (h : asPosix p = name text) :
    ∃ names : List Text, p = names.map name ∧ text = ['/'].intercalate names := by
  induction p generalizing text with
  | nil => exact absurd rfl hp
  | cons n p ih =>
    cases p with
    | nil =>
      have hn : asPosix [n] = n := by simp [asPosix, List.intercalate]
      rw [hn] at h
      exact ⟨[text], by rw [h]; rfl, by simp [List.intercalate]⟩
    | cons m p =>
      have hn : asPosix (n :: m :: p) = n ++ (.char '/' :: asPosix (m :: p)) := by
        simp [asPosix, List.intercalate]
      rw [hn] at h
      obtain ⟨tn, tr, rfl, hr, rfl⟩ := exists_name_of_append h
      cases tr with
      | nil => cases hr
      | cons c tr =>
        rw [name, List.map_cons, List.cons.injEq] at hr
        cases hr.1
        obtain ⟨names, hnames, rfl⟩ := ih (List.cons_ne_nil m p) hr.2
        refine ⟨tn :: names, by rw [List.map_cons, ← hnames], ?_⟩
        cases names with
        | nil => cases hnames
        | cons x names => simp [List.intercalate]

/-- A path that has been written is read back. -/
theorem parts_of_asPosix {p : Path} {text : Text} (hp : p ≠ []) (hallowed : ∀ n ∈ p, n.Allowed)
    (h : asPosix p = name text) : parts text = p := by
  obtain ⟨names, rfl, rfl⟩ := exists_parts hp h
  have hnames : names ≠ [] := fun hnil ↦ hp (by rw [hnil]; rfl)
  have hslash : ∀ n ∈ names, '/' ∉ n := fun n hn hmem ↦
    (hallowed (name n) (List.mem_map_of_mem hn)).no_slash (List.mem_map_of_mem hmem)
  have hsplit : (['/'].intercalate names).splitOnP (· == '/') = names :=
    List.splitOn_intercalate '/' hslash hnames
  rw [parts, hsplit, List.filter_eq_self.mpr]
  intro n hn
  have hn := hallowed (name n) (List.mem_map_of_mem hn)
  rw [decide_eq_true_eq]
  exact ⟨fun hnil ↦ hn.nonempty (by rw [hnil]; rfl), fun hdot ↦ hn.not_dot (by rw [hdot])⟩

theorem mem_intersperse {α : Type} {a sep : α} {l : List α} (h : a ∈ l) :
    a ∈ l.intersperse sep := by
  induction l with
  | nil => cases h
  | cons b l ih =>
    cases l with
    | nil => exact h
    | cons b' l =>
      rw [List.intersperse_cons_cons]
      rcases List.mem_cons.mp h with rfl | h
      · exact List.mem_cons_self
      · exact List.mem_cons_of_mem _ (List.mem_cons_of_mem _ (ih h))

/-- The names of a path that was read have no other characters than the text. -/
theorem unbroken_parts {text : Text} (h : ∀ c ∈ text, isLineBreak c = false) :
    ∀ n ∈ parts text, Unbroken n := by
  intro n hn c hc
  obtain ⟨part, hpart, rfl⟩ := List.mem_map.mp hn
  obtain ⟨c', hc', heq⟩ := List.mem_map.mp hc
  cases heq
  refine h c ?_
  have hsplit := (List.mem_filter.mp hpart).1
  have htext : ['/'].intercalate (text.splitOn '/') = text := List.intercalate_splitOn '/'
  rw [← htext]
  exact List.mem_flatten.mpr ⟨part, mem_intersperse hsplit, hc'⟩

/-! ## Reading back what was written -/

/-- A path the index can have: one that a file system has, with no secret file on it. -/
structure Listable (p : Path) : Prop where
  nonempty : p ≠ []
  allowed : ∀ n ∈ p, n.Allowed
  unbroken : ∀ n ∈ p, Unbroken n
  not_secret : isSecretPath p = false

theorem unbroken_asPosix {p : Path} (h : ∀ n ∈ p, Unbroken n) : Unbroken (asPosix p) := by
  intro c hc
  rcases mem_asPosix hc with heq | ⟨n, hn, hcn⟩
  · cases heq
    decide
  · exact h n hn c hcn

/-- A path does not begin with a slash. -/
theorem head?_asPosix {p : Path} (hp : p ≠ []) (hallowed : ∀ n ∈ p, n.Allowed) :
    (asPosix p).head? ≠ some (.char '/') := by
  cases p with
  | nil => exact absurd rfl hp
  | cons n p =>
    have hn := hallowed n List.mem_cons_self
    cases n with
    | nil => exact absurd rfl hn.nonempty
    | cons a n =>
      intro h
      have hhead : (asPosix ((a :: n) :: p)).head? = some a := by
        cases p with
        | nil => simp [asPosix, List.intercalate]
        | cons m p => simp [asPosix, List.intercalate]
      rw [hhead] at h
      cases h
      exact hn.no_slash List.mem_cons_self

/-- A line that was written is read. -/
theorem checksumLine?_written {digest path : Text}
    (hdigest : digest.length = 64 ∧ digest.all isLowerHex = true) (hne : path ≠ [])
    (hpath : ∀ c ∈ path, isLineBreak c = false) :
    checksumLine? (digest ++ ' ' :: ' ' :: path) = some (digest, path) := by
  obtain ⟨hlen, hhex⟩ := hdigest
  have htake : (digest ++ ' ' :: ' ' :: path).take 64 = digest := List.take_left' hlen
  have hdrop : (digest ++ ' ' :: ' ' :: path).drop 64 = ' ' :: ' ' :: path := List.drop_left' hlen
  have hrest : (digest ++ ' ' :: ' ' :: path).drop 66 = path := by
    rw [show 66 = 64 + 2 from rfl, ← List.drop_drop, hdrop]
    rfl
  have hplain : path.all (fun c ↦ decide (c ≠ '\r' ∧ c ≠ '\n')) = true := by
    refine List.all_eq_true.mpr fun c hc ↦ ?_
    have hbreak := hpath c hc
    rw [decide_eq_true_eq]
    constructor
    · rintro rfl
      exact absurd hbreak (by decide)
    · rintro rfl
      exact absurd hbreak (by decide)
  rw [checksumLine?, htake, hdrop, hrest]
  exact if_pos ⟨hlen, hhex, rfl, hne, hplain⟩

/-- **Lines that were written for some files are read as these files.** -/
theorem parseLines_of_lines {L : List (Path × Text)} {lines : List Text}
    (hlines : lines.map name = L.map fun e ↦ displayLine e.2 e.1)
    (hL : ∀ e ∈ L, Listable e.1 ∧ e.2.length = 64 ∧ e.2.all isLowerHex = true) (n : ℕ)
    (entries : List (Path × Text)) (hnodup : ((entries ++ L).map Prod.fst).Nodup) :
    parseLines n entries lines = .ok (entries ++ L) := by
  induction L generalizing n lines entries with
  | nil =>
    rw [List.map_nil, List.map_eq_nil_iff] at hlines
    rw [hlines, parseLines, List.append_nil]
  | cons e L ih =>
    cases lines with
    | nil => cases hlines
    | cons line lines =>
      obtain ⟨p, d⟩ := e
      rw [List.map_cons, List.map_cons, List.cons.injEq] at hlines
      obtain ⟨hline, hlines⟩ := hlines
      obtain ⟨⟨hp, hdigest⟩, hL⟩ := List.forall_mem_cons.mp hL
      -- the line is the digest, two blanks and the text of the path
      obtain ⟨td, tr, hd, hr, rfl⟩ := exists_name_of_append hline.symm
      cases name_injective hd
      cases tr with
      | nil => cases hr
      | cons a tr =>
        cases tr with
        | nil => cases hr
        | cons b text =>
          rw [name, List.map_cons, List.map_cons, List.cons.injEq, List.cons.injEq] at hr
          obtain ⟨ha, hb, htext⟩ := hr
          cases ha
          cases hb
          have hbreak : ∀ c ∈ text, isLineBreak c = false := fun c hc ↦
            unbroken_asPosix hp.unbroken c (htext ▸ List.mem_map_of_mem hc)
          have hne : text ≠ [] := by
            rintro rfl
            obtain ⟨names, hnames, hnil⟩ := exists_parts hp.nonempty htext
            cases names with
            | nil => exact hp.nonempty hnames
            | cons x names =>
              have hx := (hp.allowed (name x) (hnames ▸ List.mem_cons_self)).nonempty
              cases x with
              | nil => exact hx rfl
              | cons c x => cases names <;> simp [List.intercalate] at hnil
          have hparts := parts_of_asPosix hp.nonempty hp.allowed htext
          have hhead : text.head? ≠ some '/' := by
            have hposix := head?_asPosix hp.nonempty hp.allowed
            rw [htext, List.head?_map] at hposix
            intro h
            rw [h] at hposix
            exact hposix rfl
          have hdots : name ['.', '.'] ∉ p := fun h ↦ (hp.allowed _ h).not_dots rfl
          have hnew : p ∉ entries.map Prod.fst := by
            rw [List.map_append, List.nodup_append'] at hnodup
            exact fun h ↦ hnodup.2.2 h (by simp)
          rw [parseLines, checksumLine?_written hdigest hne hbreak]
          simp only [hparts]
          rw [if_neg (not_or.mpr ⟨hhead, hdots⟩), if_neg (by simp [hp.not_secret]), if_neg hnew,
            ih hlines hL (n + 1) (entries ++ [(p, d)]) (by simpa using hnodup)]
          simp

/-- A path that was read has no line breaks in it. -/
theorem unbroken_of_parseLines {lines : List Text} {n : ℕ} {entries index : List (Path × Text)}
    (hlines : ∀ line ∈ lines, ∀ c ∈ line, isLineBreak c = false)
    (hentries : ∀ e ∈ entries, ∀ m ∈ e.1, Unbroken m) (h : parseLines n entries lines = .ok index) :
    ∀ e ∈ index, ∀ m ∈ e.1, Unbroken m := by
  induction lines generalizing n entries with
  | nil =>
    cases h
    exact hentries
  | cons line lines ih =>
    obtain ⟨hline, hlines⟩ := List.forall_mem_cons.mp hlines
    rw [parseLines] at h
    split at h
    · cases h
    · rename_i digest text hread
      rw [ite_error_eq_ok, ite_error_eq_ok, ite_error_eq_ok] at h
      have htext : text = line.drop 66 := by
        rw [checksumLine?] at hread
        split at hread
        · cases hread
          rfl
        · cases hread
      refine ih hlines (fun e he ↦ ?_) h.2.2.2
      rcases List.mem_append.mp he with he | he
      · exact hentries e he
      · rw [List.mem_singleton.mp he]
        exact unbroken_parts fun c hc ↦ hline c (List.mem_of_mem_drop (htext ▸ hc))

theorem unbroken_of_parseChecksums {source : Tree} {index : List (Path × Text)}
    (h : parseChecksums source = .ok index) : ∀ e ∈ index, ∀ m ∈ e.1, Unbroken m := by
  rw [parseChecksums] at h
  split at h
  · cases h
  · split at h
    · cases h
    · rename_i text _
      obtain ⟨entries, hparse, h⟩ := bind_eq_ok.mp h
      rw [ite_error_eq_ok] at h
      cases h.2
      exact unbroken_of_parseLines (unbroken_of_splitlines text)
        (fun e he ↦ absurd he List.not_mem_nil) hparse

end Neva.Ops
