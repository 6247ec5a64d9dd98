import Neva.Tables
import Neva.Worker.Export
import Neva.Worker.TornTail

/-!
# Every eligible turn once

Packaging a turn may be tried any number of times, by several workers at once, and may be cut off
anywhere; meanwhile the tables change under it.  Still no turn is in the corpus twice, every line
there satisfies the eligibility formula on its own fields and is the stored document of an eligible
record, and a shard that is written down in a record contains its turn (`exported_once`).

Nothing that matters here is ever taken back: a record keeps its document and its verdict, and a
shard only grows.  `Archive.Extends` says so, and whatever a program has learned about the records
and the corpus is still true when it acts on it.  That a line is not written twice is due to
`append` itself, which looks for the utterance before it writes; the search that
`_export_eligible_record` makes first, and its lock, only spare the call.
-/

set_option autoImplicit false

namespace Neva

open Calls Tables

/-! ## Whole corpora -/

/-- The corpus consists of complete lines. -/
structure Corpus.Whole (c : Corpus) : Prop where
  numbers : Unique Shard.number c
  complete : ∀ f ∈ c, f.broken = false ∧ f.tail = []

namespace Corpus

variable {c : Corpus} {n : ℕ} {line : Text}

/-- All lines of all shards. -/
def lines (c : Corpus) : List Text := c.flatMap Shard.lines

theorem mem_lines {l : Text} : l ∈ c.lines ↔ ∃ f ∈ c, l ∈ f.lines := List.mem_flatMap

theorem Whole.tail_file (h : c.Whole) (n : ℕ) : (c.file n).tail = [] := by
  rcases file_cases h.numbers n with ⟨hmem, -⟩ | ⟨hfile, -⟩
  · exact (h.complete _ hmem).2
  · rw [hfile]
    rfl

/-- A line that is written becomes the last one of its shard. -/
theorem Whole.splitLines_file (h : c.Whole) (hline : '\n' ∉ line) (n : ℕ) :
    splitLines ((c.file n).text ++ (line ++ ['\n'])) = ((c.file n).lines ++ [line], []) := by
  rw [splitLines_append_line hline]
  have : (splitLines (c.file n).text).2 = [] := h.tail_file n
  rw [this, List.nil_append]
  rfl

theorem Whole.write (h : c.Whole) (hline : '\n' ∉ line) (n : ℕ) :
    (c.write n (line ++ ['\n']) false).Whole where
  numbers := unique_write h.numbers n _ _
  complete := by
    intro f hf
    rcases (mem_write h.numbers).mp hf with rfl | ⟨hf, -⟩
    · exact ⟨rfl, by rw [Shard.tail, h.splitLines_file hline]⟩
    · exact h.complete f hf

/-- The shards keep their lines. -/
theorem Whole.lines_write (h : c.Whole) (hline : '\n' ∉ line) {f : Shard} (hf : f ∈ c) :
    ∃ f' ∈ c.write n (line ++ ['\n']) false, f'.name = f.name ∧ f.lines ⊆ f'.lines := by
  by_cases hn : f.number = n
  · have hfile : c.file n = f := by
      rw [file, (shard?_eq_some h.numbers).mpr ⟨hf, hn⟩]
      rfl
    refine ⟨_, (mem_write h.numbers).mpr (.inl rfl), congrArg shardName hn.symm, ?_⟩
    rw [Shard.lines, Shard.lines, h.splitLines_file hline, hfile]
    exact List.subset_append_left _ _
  · exact ⟨f, (mem_write h.numbers).mpr (.inr ⟨hf, hn⟩), rfl, List.Subset.refl _⟩

/-- Writing a line adds it to the lines. -/
theorem Whole.perm_write (h : c.Whole) (hline : '\n' ∉ line) (n : ℕ) :
    (lines (c.write n (line ++ ['\n']) false)).Perm (line :: c.lines) := by
  rcases file_cases h.numbers n with ⟨hmem, hnum⟩ | ⟨hfile, hnone⟩
  · have hany : (c.any fun f ↦ f.number == n) = true :=
      List.any_eq_true.mpr ⟨c.file n, hmem, by simp [hnum]⟩
    have hgrown := h.splitLines_file hline n
    revert hgrown
    generalize c.file n = f at hmem hnum
    intro hgrown
    obtain ⟨before, after, rfl⟩ := List.append_of_mem hmem
    have hkeys : f.number ∉ before.map Shard.number ++ after.map Shard.number := by
      have := h.numbers
      rw [Tables.Unique, List.map_append, List.map_cons, List.nodup_middle] at this
      exact (List.nodup_cons.mp this).1
    have hkeep (l : List Shard) (hl : f.number ∉ l.map Shard.number) :
        (l.map fun x ↦ if x.number = n then ⟨n, x.text ++ (line ++ ['\n']), false⟩ else x) = l := by
      refine (List.map_congr_left fun x hx ↦ if_neg fun hxn ↦ hl ?_).trans (List.map_id l)
      exact List.mem_map.mpr ⟨x, hx, hxn.trans hnum.symm⟩
    rw [List.mem_append, not_or] at hkeys
    rw [Corpus.write, if_pos hany, List.map_append, List.map_cons, if_pos hnum,
      hkeep before hkeys.1, hkeep after hkeys.2]
    simp only [lines, List.flatMap_append, List.flatMap_cons]
    rw [show (⟨n, f.text ++ (line ++ ['\n']), false⟩ : Shard).lines = f.lines ++ [line] from
      congrArg Prod.fst hgrown]
    simp only [List.append_assoc, List.singleton_append]
    rw [← List.append_assoc, ← List.append_assoc]
    exact List.perm_middle
  · have hany : ¬ (c.any fun f ↦ f.number == n) = true := by simpa using hnone
    have hlines : (⟨n, line ++ ['\n'], false⟩ : Shard).lines = [line] := by
      have := splitLines_append_line hline []
      rw [Shard.lines]
      exact congrArg Prod.fst this
    rw [Corpus.write, if_neg hany, lines, List.flatMap_append, List.flatMap_singleton, hlines]
    exact List.perm_append_singleton _ _

end Corpus

/-- What a search that does not find an utterance has seen. -/
theorem anyLine_eq_false {u : Text} {ls : List Text} :
    anyLine u ls = .ok false ↔ ∀ l ∈ ls, lineHas u l = .ok false := by
  induction ls with
  | nil => simp [anyLine]
  | cons l ls ih =>
    rw [anyLine, List.forall_mem_cons]
    split <;> simp_all

/-! ## Records and their lines -/

/-- The state of a run. -/
abbrev Depot := World ExportOp PackageError Handling Archive

/-- Some program has read the context of the turn. -/
def Depot.Seen (w : Depot) (c : TurnContext) : Prop :=
  ∃ i, (i, (⟨.getTurnContext c.turnId, .ok (some c)⟩ : Past ExportOp PackageError)) ∈ w.trace

namespace RecordRow

/-- The record was made from this context, which has been read, and the verdict with it. -/
def MadeFrom (p : Packaging) (w : Depot) (r : RecordRow) (c : TurnContext) : Prop :=
  ∃ now golden, w.Seen c ∧ c.turnId = r.turnId ∧ goldenRecord p.repr c now = .ok golden ∧
    r.golden = p.jsonb.read (.obj golden) ∧ r.trainingEligible = Neva.trainingEligible c

/-- The record was made from some context. -/
def Packaged (p : Packaging) (w : Depot) (r : RecordRow) : Prop := ∃ c, r.MadeFrom p w c

variable {p : Packaging} {w : Depot} {r : RecordRow}

/-- The document of a record can be appended. -/
theorem Packaged.exists_golden (h : r.Packaged p w) :
    ∃ g : Golden, g.json = r.golden ∧ g.utteranceId = uuidText r.turnId := by
  obtain ⟨c, now, golden, -, hid, hgolden, hread, -⟩ := h
  obtain ⟨label, -, rfl⟩ := goldenRecord_eq_ok.mp hgolden
  obtain ⟨members, hmembers, -⟩ := p.jsonb.read_obj (goldenMembers p.repr c label now)
  have hlookup : Json.lookup members "utterance_id".toList = some (.str (uuidText r.turnId)) := by
    have hnames : ((goldenMembers p.repr c label now).map Prod.fst).Nodup := nodup_goldenMembers
    have hid' : Json.lookup (goldenMembers p.repr c label now) "utterance_id".toList =
        some (.str (uuidText r.turnId)) := hid ▸ rfl
    have hget := p.jsonb.get?_read hnames "utterance_id".toList
    rwa [hmembers, hid', Option.map_some, p.jsonb.read_str] at hget
  exact ⟨⟨members, hmembers ▸ p.jsonb.proper_read _ proper_goldenMembers, _, uuidText_ne_nil _,
    hlookup⟩, (hread.trans hmembers).symm, rfl⟩

/-- Its line is found under the identifier of the turn, and under no other. -/
theorem Packaged.lineHas (h : r.Packaged p w) (u : Text) :
    Neva.lineHas u r.golden.dumps = .ok (uuidText r.turnId == u) := by
  obtain ⟨g, hjson, hid⟩ := h.exists_golden
  rw [← hjson, ← hid]
  exact g.lineHas_line u

end RecordRow

/-! ## The invariant -/

namespace Archive

/-- The record of the turn is eligible, and this is its document. -/
def Stored (a : Archive) (turnId : Uuid) (golden : List (Text × Json)) : Prop :=
  ∃ r ∈ a.records, r.turnId = turnId ∧ r.trainingEligible = true ∧ r.golden = .obj golden

/-- The shard contains the line of the record of the turn. -/
def Exported (a : Archive) (turnId : Uuid) (shard : Text) : Prop :=
  ∃ r ∈ a.records, r.turnId = turnId ∧ ∃ f ∈ a.corpus, f.name = shard ∧ r.golden.dumps ∈ f.lines

/-- Records keep their documents and verdicts, and shards their lines. -/
structure Extends (a a' : Archive) : Prop where
  records : ∀ r ∈ a.records, ∃ r' ∈ a'.records, r'.turnId = r.turnId ∧ r'.golden = r.golden ∧
    r'.trainingEligible = r.trainingEligible
  shards : ∀ f ∈ a.corpus, ∃ f' ∈ a'.corpus, f'.name = f.name ∧ f.lines ⊆ f'.lines

variable {a a' : Archive} {turnId : Uuid} {golden : List (Text × Json)} {shard : Text}

theorem Extends.refl (a : Archive) : a.Extends a where
  records r hr := ⟨r, hr, rfl, rfl, rfl⟩
  shards f hf := ⟨f, hf, rfl, List.Subset.refl _⟩

theorem Stored.extends (h : a.Stored turnId golden) (hext : a.Extends a') :
    a'.Stored turnId golden := by
  obtain ⟨r, hr, hid, heligible, hgolden⟩ := h
  obtain ⟨r', hr', hid', hgolden', heligible'⟩ := hext.records r hr
  exact ⟨r', hr', hid'.trans hid, heligible'.trans heligible, hgolden'.trans hgolden⟩

theorem Exported.extends (h : a.Exported turnId shard) (hext : a.Extends a') :
    a'.Exported turnId shard := by
  obtain ⟨r, hr, hid, f, hf, hname, hline⟩ := h
  obtain ⟨r', hr', hid', hgolden', -⟩ := hext.records r hr
  obtain ⟨f', hf', hname', hsub⟩ := hext.shards f hf
  exact ⟨r', hr', hid'.trans hid, f', hf', hname'.trans hname, hgolden' ▸ hsub hline⟩

/-- One record for each turn; the lines are those of eligible records, each at most once; and a
record that names a shard has its line there. -/
structure Sound (a : Archive) : Prop where
  turnIds : Unique RecordRow.turnId a.records
  whole : a.corpus.Whole
  lines : ∀ l ∈ a.corpus.lines, ∃ r ∈ a.records, r.trainingEligible = true ∧ l = r.golden.dumps
  once : a.corpus.lines.Nodup
  linked : ∀ r ∈ a.records, ∀ s, r.shardFile = some s →
    ∃ f ∈ a.corpus, f.name = s ∧ r.golden.dumps ∈ f.lines

end Archive

/-- The records were made from contexts that have been read, and the archive is sound. -/
structure Depot.Sound (p : Packaging) (w : Depot) : Prop where
  packaged : ∀ r ∈ w.state.records, r.Packaged p w
  archive : w.state.Sound

/-- What a program knows when it makes a call. -/
def Rightly (p : Packaging) (w : Depot) : {β : Type} → ExportOp β → Prop
  | _, .createRecord turnId golden eligible => ∃ c now, w.Seen c ∧ c.turnId = turnId ∧
      goldenRecord p.repr c now = .ok golden ∧ eligible = trainingEligible c
  | _, .append golden => ∃ turnId, w.state.Stored turnId golden
  | _, .setRecordShard turnId shard => w.state.Exported turnId shard
  | _, _ => True

/-! ## What a call keeps -/

namespace Archive

variable {p : Packaging} {a : Archive} {turnId : Uuid} {golden : List (Text × Json)}

theorem mem_createRecord {jsonb : Json.Store} {eligible : Bool} {r : RecordRow}
    (hr : r ∈ (Repository.createRecord a.records jsonb turnId golden eligible).2) :
    r ∈ a.records ∨ r = ⟨turnId, jsonb.read (.obj golden), eligible, none⟩ := by
  rw [Repository.createRecord] at hr
  split at hr
  · exact .inl hr
  · simpa using hr

/-- Creating a record adds one at most. -/
theorem Sound.createRecord (h : a.Sound) (jsonb : Json.Store) (eligible : Bool) {a' : Archive}
    (ha' : a' = { a with
      records := (Repository.createRecord a.records jsonb turnId golden eligible).2 }) :
    a'.Sound ∧ a.Extends a' := by
  have hsub : a.records ⊆ a'.records := by
    rw [ha', Repository.createRecord]
    split
    · exact List.Subset.refl _
    · exact List.subset_append_left _ _
  have hcorpus : a'.corpus = a.corpus := by rw [ha']
  refine ⟨⟨?_, hcorpus ▸ h.whole, ?_, hcorpus ▸ h.once, ?_⟩,
    fun r hr ↦ ⟨r, hsub hr, rfl, rfl, rfl⟩, hcorpus ▸ fun f hf ↦ ⟨f, hf, rfl, List.Subset.refl _⟩⟩
  · rw [ha', Repository.createRecord]
    split
    · exact h.turnIds
    · rename_i hnone
      exact h.turnIds.append (by simpa using hnone)
  · intro l hl
    obtain ⟨r, hr, hrest⟩ := h.lines l (hcorpus ▸ hl)
    exact ⟨r, hsub hr, hrest⟩
  · intro r hr s hs
    rw [ha'] at hr
    rcases mem_createRecord hr with hr | rfl
    · exact hcorpus ▸ h.linked r hr s hs
    · cases hs

/-- Writing a shard down changes nothing else. -/
theorem setRecordShard_eq (records : List RecordRow) (turnId : Uuid) (shard : Text) :
    ∃ f : RecordRow → RecordRow, Repository.setRecordShard records turnId shard = records.map f ∧
      ∀ r, (f r).turnId = r.turnId ∧ (f r).golden = r.golden ∧
        (f r).trainingEligible = r.trainingEligible ∧ ((f r).shardFile = r.shardFile ∨
          r.turnId = turnId ∧ (f r).shardFile = some shard) := by
  refine ⟨_, rfl, fun r ↦ ?_⟩
  split
  · rename_i h
    exact ⟨rfl, rfl, rfl, .inr ⟨h.1, rfl⟩⟩
  · exact ⟨rfl, rfl, rfl, .inl rfl⟩

/-- The shard that is written down contains the line. -/
theorem Sound.setRecordShard (h : a.Sound) {shard : Text} (hexp : a.Exported turnId shard)
    {a' : Archive} (ha' : a' = { a with
      records := Repository.setRecordShard a.records turnId shard }) :
    a'.Sound ∧ a.Extends a' := by
  obtain ⟨f, hf, hkeep⟩ := setRecordShard_eq a.records turnId shard
  have hcorpus : a'.corpus = a.corpus := by rw [ha']
  have hrecords : a'.records = a.records.map f := by rw [ha', ← hf]
  refine ⟨⟨?_, hcorpus ▸ h.whole, ?_, hcorpus ▸ h.once, ?_⟩, fun r hr ↦ ?_,
    hcorpus ▸ fun f hf ↦ ⟨f, hf, rfl, List.Subset.refl _⟩⟩
  · have hids : (a.records.map f).map RecordRow.turnId = a.records.map RecordRow.turnId := by
      rw [List.map_map]
      exact List.map_congr_left fun r _ ↦ (hkeep r).1
    rw [hrecords, Tables.Unique, hids]
    exact h.turnIds
  · intro l hl
    obtain ⟨r, hr, heligible, rfl⟩ := h.lines l (hcorpus ▸ hl)
    exact ⟨f r, hrecords ▸ List.mem_map_of_mem hr, (hkeep r).2.2.1.trans heligible,
      congrArg Json.dumps (hkeep r).2.1.symm⟩
  · intro r' hr' s hs
    obtain ⟨r, hr, rfl⟩ := List.mem_map.mp (hrecords ▸ hr')
    rw [hcorpus, (hkeep r).2.1]
    rcases (hkeep r).2.2.2 with hsame | ⟨hid, hnew⟩
    · exact h.linked r hr s (hsame ▸ hs)
    · obtain ⟨r₀, hr₀, hid₀, hshard⟩ := hexp
      rw [h.turnIds.eq hr hr₀ (hid.trans hid₀.symm), ← Option.some.inj (hnew.symm.trans hs)]
      exact hshard
  · exact ⟨f r, hrecords ▸ List.mem_map_of_mem hr, (hkeep r).1, (hkeep r).2.1, (hkeep r).2.2.1⟩

/-- A shard in which a turn is found has its line. -/
theorem Sound.exported_of_found (h : a.Sound) (hpack : ∀ r ∈ a.records, ∀ u,
      lineHas u r.golden.dumps = .ok (uuidText r.turnId == u)) {shard : Text}
    (hfound : a.corpus.findUtterance (uuidText turnId) = .ok (some shard)) :
    a.Exported turnId shard := by
  obtain ⟨f, hf, hname, hcontains, -⟩ := (Corpus.findUtterance_eq_some h.whole.numbers).mp hfound
  obtain ⟨l, hl, hhas⟩ := Corpus.exists_line_of_contains hcontains
  rw [Shard.allLines, (h.whole.complete f hf).2, if_pos rfl, List.append_nil] at hl
  obtain ⟨r, hr, -, rfl⟩ := h.lines l (Corpus.mem_lines.mpr ⟨f, hf, hl⟩)
  rw [hpack r hr] at hhas
  have hid : uuidText r.turnId = uuidText turnId := beq_iff_eq.mp (Except.ok.inj hhas)
  exact ⟨r, hr, uuidText_injective hid, f, hf, hname, hl⟩

/-- An appended line is the line of the record it was given, and it is new. -/
theorem Sound.append (h : a.Sound) (hpack : ∀ r ∈ a.records, ∃ g : Golden, g.json = r.golden ∧
      g.utteranceId = uuidText r.turnId) (hstored : a.Stored turnId golden) (limit : ℕ)
    {a' : Archive} (ha' : a' = { a with
      corpus := (a.corpus.append limit (.obj golden)).2 }) :
    a'.Sound ∧ a.Extends a' ∧
      ∀ s, (a.corpus.append limit (.obj golden)).1 = .ok s → a'.Exported turnId s := by
  have hhas (r : RecordRow) (hr : r ∈ a.records) (u : Text) :
      lineHas u r.golden.dumps = .ok (uuidText r.turnId == u) := by
    obtain ⟨g, hjson, hid⟩ := hpack r hr
    rw [← hjson, ← hid]
    exact g.lineHas_line u
  obtain ⟨r, hr, rfl, heligible, hgolden⟩ := hstored
  obtain ⟨g, hjson, hid⟩ := hpack r hr
  rw [← hgolden, ← hjson, Corpus.append] at ha' ⊢
  cases hfind : a.corpus.findUtterance g.utteranceId with
  | error e =>
    rw [Corpus.appendCut_of_error hfind] at ha' ⊢
    exact ⟨ha' ▸ h, ha' ▸ Extends.refl a, by simp⟩
  | ok found =>
    cases found with
    | some existing =>
      rw [Corpus.appendCut_of_found hfind] at ha' ⊢
      refine ⟨ha' ▸ h, ha' ▸ Extends.refl a, fun s hs ↦ ?_⟩
      rw [← Except.ok.inj hs, ha']
      exact h.exported_of_found hhas (hid ▸ hfind)
    | none =>
      obtain ⟨n, -, heq⟩ : ∃ n, a.corpus.currentShard limit = .ok n ∧
          a.corpus.appendCut limit g.json none = _ := Corpus.exists_appendCut_of_none hfind
      rw [heq, Cut.written] at ha' ⊢
      have hline := g.newline_not_mem_line
      have hnew : g.line ∉ a.corpus.lines := by
        intro hmem
        obtain ⟨f, hf, hl⟩ := Corpus.mem_lines.mp hmem
        have hnone := Corpus.findUtterance_eq_none.mp hfind f hf
        rw [Shard.contains_eq (h.whole.complete f hf).1, anyLine_eq_false] at hnone
        have := hnone _ (List.mem_append_left _ hl)
        rw [g.lineHas_line, beq_self_eq_true] at this
        cases this
      have hcorpus : a'.corpus = a.corpus.write n (g.line ++ ['\n']) false := by rw [ha']
      have hrecords : a'.records = a.records := by rw [ha']
      have hperm : a'.corpus.lines.Perm (g.line :: a.corpus.lines) := by
        rw [hcorpus]
        exact h.whole.perm_write hline n
      have hkept (f : Shard) (hf : f ∈ a.corpus) :
          ∃ f' ∈ a'.corpus, f'.name = f.name ∧ f.lines ⊆ f'.lines := by
        rw [hcorpus]
        exact h.whole.lines_write hline hf
      have hgrown : ⟨n, (a.corpus.file n).text ++ (g.line ++ ['\n']), false⟩ ∈ a'.corpus := by
        rw [hcorpus]
        exact (Corpus.mem_write h.whole.numbers).mpr (.inl rfl)
      refine ⟨⟨hrecords ▸ h.turnIds, hcorpus ▸ h.whole.write hline n, fun l hl ↦ ?_, ?_, ?_⟩,
        ⟨hrecords ▸ fun r hr ↦ ⟨r, hr, rfl, rfl, rfl⟩, hkept⟩, fun s hs ↦ ?_⟩
      · rw [hrecords]
        rcases List.mem_cons.mp (hperm.mem_iff.mp hl) with rfl | hl
        · exact ⟨r, hr, heligible, congrArg Json.dumps hjson⟩
        · exact h.lines l hl
      · rw [hperm.nodup_iff, List.nodup_cons]
        exact ⟨hnew, h.once⟩
      · intro r' hr' s hs
        obtain ⟨f, hf, hname, hl⟩ := h.linked r' (hrecords ▸ hr') s hs
        obtain ⟨f', hf', hname', hsub⟩ := hkept f hf
        exact ⟨f', hf', hname'.trans hname, hsub hl⟩
      · refine ⟨r, hrecords ▸ hr, rfl, _, hgrown, Except.ok.inj hs, ?_⟩
        rw [Shard.lines, h.whole.splitLines_file hline, ← hjson]
        exact List.mem_append_right _ (List.mem_singleton.mpr rfl)

end Archive

/-! ## The programs -/

namespace Depot

/-- What has been read stays read, and the archive only grows. -/
structure Grows (w w' : Depot) : Prop where
  trace : ∀ x ∈ w.trace, x ∈ w'.trace
  state : w.state.Extends w'.state

/-- What is true once is true ever after. -/
def Lasting (P : Depot → Prop) : Prop := ∀ w w' : Depot, w.Grows w' → P w → P w'

variable {p : Packaging} {w w' : Depot}

theorem Seen.grows {c : TurnContext} (h : w.Seen c) (hgrows : w.Grows w') : w'.Seen c := by
  obtain ⟨i, hi⟩ := h
  exact ⟨i, hgrows.trace _ hi⟩

theorem packaged_of_grows {r : RecordRow} (h : r.Packaged p w) (hgrows : w.Grows w')
    {r' : RecordRow} (hid : r'.turnId = r.turnId) (hgolden : r'.golden = r.golden)
    (heligible : r'.trainingEligible = r.trainingEligible) : r'.Packaged p w' := by
  obtain ⟨c, now, golden, hseen, hc, hrecord, hread, hverdict⟩ := h
  exact ⟨c, now, golden, hseen.grows hgrows, hc.trans hid.symm, hrecord, hgolden.trans hread,
    heligible.trans hverdict⟩

/-- **A call keeps the invariant** when the program knows what it is doing. -/
theorem Sound.call (h : w.Sound p) {β : Type} {op : ExportOp β} (hop : Rightly p w op) (i : ℕ)
    (now : Time) : Sound p ((packaging p).after i op now w) ∧
      w.Grows ((packaging p).after i op now w) := by
  have hsame (hrecords : (op.exec p now w.state).2.records = w.state.records)
      (hcorpus : (op.exec p now w.state).2.corpus = w.state.corpus) :
      Sound p ((packaging p).after i op now w) ∧ w.Grows ((packaging p).after i op now w) := by
    have hgrows : w.Grows ((packaging p).after i op now w) :=
      ⟨fun x hx ↦ List.mem_cons_of_mem _ hx, ⟨fun r hr ↦ ⟨r, hrecords ▸ hr, rfl, rfl, rfl⟩,
        fun f hf ↦ ⟨f, hcorpus ▸ hf, rfl, List.Subset.refl _⟩⟩⟩
    refine ⟨⟨fun r hr ↦ ?_, ?_⟩, hgrows⟩
    · exact packaged_of_grows (h.packaged r (hrecords ▸ hr)) hgrows rfl rfl rfl
    · obtain ⟨hids, hwhole, hlines, honce, hlinked⟩ := h.archive
      exact ⟨hrecords ▸ hids, hcorpus ▸ hwhole, hrecords ▸ hcorpus ▸ hlines, hcorpus ▸ honce,
        hrecords ▸ hcorpus ▸ hlinked⟩
  have hpack (r : RecordRow) (hr : r ∈ w.state.records) := (h.packaged r hr).exists_golden
  cases op with
  | createRecord turnId golden eligible =>
    obtain ⟨hsound, hext⟩ := h.archive.createRecord p.jsonb eligible
      (rfl : (ExportOp.exec p now (.createRecord turnId golden eligible) w.state).2 = _)
    have hgrows : w.Grows ((packaging p).after i (.createRecord turnId golden eligible) now w) :=
      ⟨fun x hx ↦ List.mem_cons_of_mem _ hx, hext⟩
    refine ⟨⟨fun r hr ↦ ?_, hsound⟩, hgrows⟩
    rcases Archive.mem_createRecord hr with hr | rfl
    · exact packaged_of_grows (h.packaged r hr) hgrows rfl rfl rfl
    · obtain ⟨c, at', hseen, hid, hrecord, hverdict⟩ := hop
      exact ⟨c, at', golden, hseen.grows hgrows, hid, hrecord, rfl, hverdict⟩
  | setRecordShard turnId shard =>
    obtain ⟨hsound, hext⟩ := h.archive.setRecordShard hop
      (rfl : (ExportOp.exec p now (.setRecordShard turnId shard) w.state).2 = _)
    have hgrows : w.Grows ((packaging p).after i (.setRecordShard turnId shard) now w) :=
      ⟨fun x hx ↦ List.mem_cons_of_mem _ hx, hext⟩
    refine ⟨⟨fun r' hr' ↦ ?_, hsound⟩, hgrows⟩
    obtain ⟨f, hf, hkeep⟩ := Archive.setRecordShard_eq w.state.records turnId shard
    have hr' : r' ∈ Repository.setRecordShard w.state.records turnId shard := hr'
    obtain ⟨r, hr, rfl⟩ := List.mem_map.mp (hf ▸ hr')
    exact packaged_of_grows (h.packaged r hr) hgrows (hkeep r).1 (hkeep r).2.1 (hkeep r).2.2.1
  | append golden =>
    obtain ⟨turnId, hstored⟩ := hop
    obtain ⟨hsound, hext, -⟩ := h.archive.append hpack hstored p.shardRecordLimit
      (rfl : (ExportOp.exec p now (.append golden) w.state).2 = _)
    have hgrows : w.Grows ((packaging p).after i (.append golden) now w) :=
      ⟨fun x hx ↦ List.mem_cons_of_mem _ hx, hext⟩
    exact ⟨⟨fun r hr ↦ packaged_of_grows (h.packaged r hr) hgrows rfl rfl rfl, hsound⟩, hgrows⟩
  | _ => exact hsame rfl rfl

end Depot

/-! ## The programs -/

/-- What the workers guarantee each other. -/
def exports (p : Packaging) : Contract ExportOp PackageError Handling Archive Unit where
  known _ := True
  inv w := Depot.Sound p w
  pre _ op w := Rightly p w op
  post _ _ _ _ := True
  gone _ _ := True

namespace Exports

variable {p : Packaging} {i : ℕ} {turnId : Uuid} {golden : List (Text × Json)}

/-- Program `i` makes its calls rightly when it starts with what is known. -/
abbrev Rights (p : Packaging) (i : ℕ) (prog : Prog ExportOp PackageError Unit)
    (P : Depot → Prop) : Prop :=
  Contract.Safe (packaging p) Terms.any (exports p) i (fun _ _ ↦ True) prog P

theorem stable {P : Depot → Prop} (hP : Depot.Lasting P) :
    Contract.Stable (packaging p) Terms.any (exports p) i P where
  spawned w _ hw := hP w _ ⟨fun _ hx ↦ hx, Archive.Extends.refl _⟩ hw
  called j _ _ _ now w hw hop _ _ hPw := hP w _ (hw.2.call hop j now).2 hPw

/-- A call, and what its answer tells the program. -/
theorem rights_step {β : Type} {op : ExportOp β} {f : β → Prog ExportOp PackageError Unit}
    {P : Depot → Prop} (New : β → Depot → Prop) (hP : Depot.Lasting P)
    (hpre : ∀ w, w.Sound p → P w → Rightly p w op)
    (hnew : ∀ w now b, w.Sound p → P w → (op.exec p now w.state).1 = .ok b →
      New b ((packaging p).after i op now w))
    (hf : ∀ b, Rights p i (f b) fun w ↦ P w ∧ New b w) :
    Rights p i (Prog.perform op >>= f) P := by
  refine Contract.safe_perform (stable hP) (fun _ ↦ Contract.Stable.true i)
    (fun w hw hPw ↦ hpre w hw.2 hPw) (fun _ _ _ _ ↦ ⟨trivial, fun _ ↦ trivial⟩)
    (fun _ _ _ _ _ _ _ _ ↦ trivial) fun w now b hw hPw _ _ hb ↦ ?_
  exact ⟨_, ⟨hP w _ (hw.2.call (hpre w hw.2 hPw) i now).2 hPw, hnew w now b hw.2 hPw hb⟩, hf b⟩

/-- A call whose answer tells the program nothing it has to know. -/
theorem rights_call {β : Type} {op : ExportOp β} {f : β → Prog ExportOp PackageError Unit}
    {P : Depot → Prop} (hP : Depot.Lasting P) (hpre : ∀ w, w.Sound p → P w → Rightly p w op)
    (hf : ∀ b, Rights p i (f b) P) : Rights p i (Prog.perform op >>= f) P := by
  have hP' : Depot.Lasting fun w ↦ P w ∧ True := fun w w' hgrows hw ↦ ⟨hP w w' hgrows hw.1, trivial⟩
  exact rights_step (fun _ _ ↦ True) hP hpre (fun _ _ _ _ _ _ ↦ trivial)
    fun b ↦ (hf b).imp (stable hP') fun _ ↦ And.left

theorem rights_done (r : Except PackageError Unit) {P : Depot → Prop} (hP : Depot.Lasting P) :
    Rights p i (.done r) P :=
  ⟨stable hP, fun _ _ _ ↦ trivial⟩

theorem rights_perform {op : ExportOp Unit} {P : Depot → Prop} (hP : Depot.Lasting P)
    (hpre : ∀ w, w.Sound p → P w → Rightly p w op) : Rights p i (Prog.perform op) P := by
  refine ⟨stable hP, fun w hw hPw ↦ ⟨hpre w hw.2 hPw, fun _ ↦ ⟨trivial, fun e ↦ ?_⟩,
    fun now _ _ ↦ ?_⟩⟩
  · exact ⟨fun _ ↦ True, trivial, rights_done _ fun _ _ _ _ ↦ trivial⟩
  · exact ⟨fun _ ↦ True, trivial, rights_done _ fun _ _ _ _ ↦ trivial⟩

/-! ### What a program knows -/

/-- The record of the turn has been read. -/
def Listed (turnId : Uuid) (state : RecordExportState) (w : Depot) : Prop :=
  ∃ r ∈ w.state.records, r.turnId = turnId ∧ r.golden = .obj state.golden ∧
    state.golden ≠ [] ∧ r.trainingEligible = state.trainingEligible

/-- A record has been built from a context that has been read. -/
def Built (p : Packaging) (turnId : Uuid) (golden : List (Text × Json)) (eligible : Bool)
    (w : Depot) : Prop :=
  ∃ c now, w.Seen c ∧ c.turnId = turnId ∧ goldenRecord p.repr c now = .ok golden ∧
    eligible = trainingEligible c

theorem lasting_stored (turnId : Uuid) (golden : List (Text × Json)) :
    Depot.Lasting fun w ↦ w.state.Stored turnId golden :=
  fun _ _ hgrows h ↦ h.extends hgrows.state

theorem lasting_listed (turnId : Uuid) (state : RecordExportState) :
    Depot.Lasting (Listed turnId state) := by
  rintro w w' hgrows ⟨r, hr, hid, hgolden, hne, heligible⟩
  obtain ⟨r', hr', hid', hgolden', heligible'⟩ := hgrows.state.records r hr
  exact ⟨r', hr', hid'.trans hid, hgolden'.trans hgolden, hne, heligible'.trans heligible⟩

theorem lasting_built (turnId : Uuid) (golden : List (Text × Json)) (eligible : Bool) :
    Depot.Lasting (Built p turnId golden eligible) := by
  rintro w w' hgrows ⟨c, now, hseen, hrest⟩
  exact ⟨c, now, hseen.grows hgrows, hrest⟩

/-- What a search tells. -/
theorem exported_of_found {w : Depot} (h : w.Sound p) {now : Time} {shard : Text}
    (hfound : (ExportOp.exec p now (.findUtterance (uuidText turnId)) w.state).1 =
      .ok (some shard)) : w.state.Exported turnId shard := by
  refine h.archive.exported_of_found (fun r hr ↦ (h.packaged r hr).lineHas) ?_
  rw [ExportOp.exec] at hfound
  cases hfind : w.state.corpus.findUtterance (uuidText turnId) with
  | error e => simp [hfind, Except.mapError] at hfound
  | ok found => simpa [hfind, Except.mapError] using hfound

/-- What an append tells. -/
theorem exported_of_appended {w : Depot} (h : w.Sound p) {now : Time} {shard : Text}
    (hstored : w.state.Stored turnId golden)
    (happend : (ExportOp.exec p now (.append golden) w.state).1 = .ok shard) :
    ((packaging p).after i (.append golden) now w).state.Exported turnId shard := by
  refine (h.archive.append (fun r hr ↦ (h.packaged r hr).exists_golden) hstored p.shardRecordLimit
    rfl).2.2 shard ?_
  rw [ExportOp.exec] at happend
  cases hresult : (w.state.corpus.append p.shardRecordLimit (.obj golden)).1 with
  | error e => simp [hresult, Except.mapError] at happend
  | ok s => simpa [hresult, Except.mapError] using happend

/-- What reading a record tells. -/
theorem listed_of_read {w : Depot} (h : w.Sound p) {now : Time} {state : RecordExportState}
    (hread : (ExportOp.exec p now (.getRecordExportState turnId) w.state).1 = .ok (some state)) :
    Listed turnId state w := by
  rw [ExportOp.exec, Repository.getRecordExportState] at hread
  dsimp only at hread
  split at hread
  · simp at hread
  · rename_i r hfind
    split at hread
    · rename_i members hgolden
      have hr : r ∈ w.state.records := List.mem_of_find?_eq_some hfind
      have hid : r.turnId = turnId := by simpa using List.find?_some hfind
      obtain ⟨g, hjson, -⟩ := (h.packaged r hr).exists_golden
      have hmembers : g.members = members := Json.obj.inj (hjson.trans hgolden)
      refine ⟨r, hr, hid, ?_⟩
      rw [← Option.some.inj (Except.ok.inj hread)]
      refine ⟨hgolden, fun hnil ↦ ?_, rfl⟩
      have hlookup := g.lookup
      rw [hmembers, show members = [] from hnil] at hlookup
      cases hlookup
    · cases hread

/-! ### The programs -/

/-- Under the lock: the line is found, or appended, and its shard written down. -/
theorem rights_flush : Rights p i (GauntletService.flush turnId golden)
    fun w ↦ w.state.Stored turnId golden := by
  have hlasting := lasting_stored turnId golden
  refine rights_call hlasting (fun _ _ _ ↦ trivial) fun state ↦ ?_
  cases state with
  | none => exact rights_done _ hlasting
  | some state =>
    dsimp only
    split
    · exact rights_done _ hlasting
    · refine rights_step (fun found w ↦ ∀ s, found = some s → w.state.Exported turnId s) hlasting
        (fun _ _ _ ↦ trivial) (fun w now found hw _ hfound s hs ↦ ?_) fun found ↦ ?_
      · exact exported_of_found hw (hs ▸ hfound)
      · have hfound : Depot.Lasting fun w ↦ w.state.Stored turnId golden ∧
            ∀ s, found = some s → w.state.Exported turnId s := fun w w' hgrows hw ↦
          ⟨hw.1.extends hgrows.state, fun s hs ↦ (hw.2 s hs).extends hgrows.state⟩
        cases found with
        | some shard =>
          exact rights_perform hfound fun w _ hw ↦ hw.2 shard rfl
        | none =>
          refine rights_step (fun shard w ↦ w.state.Exported turnId shard) hfound
            (fun w _ hw ↦ ⟨turnId, hw.1⟩)
            (fun w now shard hw hP happend ↦ exported_of_appended hw hP.1 happend) fun shard ↦ ?_
          have hboth : Depot.Lasting fun w ↦ (w.state.Stored turnId golden ∧
              ∀ s, none = some s → w.state.Exported turnId s) ∧ w.state.Exported turnId shard :=
            fun w w' hgrows hw ↦ ⟨hfound w w' hgrows hw.1, hw.2.extends hgrows.state⟩
          refine rights_call hboth (fun w _ hw ↦ hw.2) fun _ ↦ ?_
          exact rights_perform hboth fun _ _ _ ↦ trivial

theorem rights_export : Rights p i (GauntletService.exportEligibleRecord turnId golden)
    fun w ↦ w.state.Stored turnId golden :=
  rights_call (lasting_stored turnId golden) (fun _ _ _ ↦ trivial) fun _ ↦
    Contract.safe_ensuring (fun _ _ ↦ trivial) (fun _ _ _ ↦ trivial) rights_flush

/-- What is exported is the document that was stored. -/
theorem rights_reconcile {eligible : Bool} {existing : RecordExportState} :
    Rights p i (GauntletService.reconcile turnId golden eligible existing)
      (Listed turnId existing) := by
  have hlasting := lasting_listed turnId existing
  rw [GauntletService.reconcile]
  split
  · exact rights_done _ hlasting
  · rename_i heligible
    split
    · exact rights_done _ hlasting
    · by_cases hne : existing.golden = []
      · -- a record that has been read is not empty
        refine rights_export.imp (stable hlasting) fun w hw ↦ ?_
        obtain ⟨-, -, -, -, hne', -⟩ := hw
        exact absurd hne hne'
      · rw [if_neg hne]
        refine rights_export.imp (stable hlasting) fun w hw ↦ ?_
        obtain ⟨r, hr, hid, hgolden, -, hverdict⟩ := hw
        exact ⟨r, hr, hid, by simpa [hverdict] using (not_or.mp heligible).1, hgolden⟩

/-- The record is read back after it has been created. -/
theorem rights_store {eligible : Bool} :
    Rights p i (GauntletService.store turnId golden eligible) (Built p turnId golden eligible) := by
  have hlasting : Depot.Lasting (Built p turnId golden eligible) :=
    lasting_built turnId golden eligible
  have hread (found : Option RecordExportState) : Depot.Lasting fun w ↦
      Built p turnId golden eligible w ∧ ∀ x, found = some x → Listed turnId x w :=
    fun w w' hgrows hw ↦ ⟨hlasting w w' hgrows hw.1,
      fun x hx ↦ lasting_listed turnId x w w' hgrows (hw.2 x hx)⟩
  have hlisted (w : Depot) (now : Time) (found : Option RecordExportState) (hw : w.Sound p)
      (h : (ExportOp.exec p now (.getRecordExportState turnId) w.state).1 = .ok found) :
      ∀ x, found = some x →
        Listed turnId x ((packaging p).after i (.getRecordExportState turnId) now w) :=
    fun x hx ↦ listed_of_read hw (hx ▸ h)
  refine rights_step (fun found w ↦ ∀ x, found = some x → Listed turnId x w) hlasting
    (fun _ _ _ ↦ trivial) (fun w now found hw _ h ↦ hlisted w now found hw h) fun found ↦ ?_
  cases found with
  | some existing =>
    exact rights_reconcile.imp (stable (hread _)) fun w hw ↦ hw.2 existing rfl
  | none =>
    refine Contract.Safe.imp ?_ (stable (hread none)) fun w hw ↦ hw.1
    have hrest (rest : Option RecordExportState → Prog ExportOp PackageError Unit)
        (hsome : ∀ existing, rest (some existing) =
          GauntletService.reconcile turnId golden eligible existing)
        (hnone : rest none = Prog.raise (.runtimeError "record missing after create")) :
        Rights p i (Prog.perform (.getRecordExportState turnId) >>= rest)
          (Built p turnId golden eligible) := by
      refine rights_step (fun found w ↦ ∀ x, found = some x → Listed turnId x w) hlasting
        (fun _ _ _ ↦ trivial) (fun w now found hw _ h ↦ hlisted w now found hw h) fun found ↦ ?_
      cases found with
      | some existing =>
        rw [hsome]
        exact rights_reconcile.imp (stable (hread _)) fun w hw ↦ hw.2 existing rfl
      | none =>
        rw [hnone]
        exact rights_done _ (hread none)
    refine rights_call hlasting (fun w _ hw ↦ hw) fun inserted ↦ ?_
    cases inserted with
    | true =>
      exact rights_call hlasting (fun _ _ _ ↦ trivial) fun _ ↦ hrest _ (fun _ ↦ rfl) rfl
    | false => exact hrest _ (fun _ ↦ rfl) rfl

theorem rights_package : Rights p i (GauntletService.package p turnId) fun _ ↦ True := by
  have htrue : Depot.Lasting fun _ ↦ True := fun _ _ _ _ ↦ trivial
  refine rights_step (fun found w ↦ ∀ c, found = some c → w.Seen c ∧ c.turnId = turnId) htrue
    (fun _ _ _ ↦ trivial) (fun w now found _ _ hfound c hc ↦ ?_) fun found ↦ ?_
  · have hcontext : Repository.turnContext p.labels w.state.db turnId = some c :=
      (Except.ok.inj hfound).trans hc
    have hid := Repository.turnId_of_turnContext hcontext
    refine ⟨⟨i, List.mem_cons.mpr (.inl ?_)⟩, hid⟩
    rw [← hcontext, hid]
    rfl
  · have hlasting : Depot.Lasting fun w ↦ True ∧
        ∀ c, found = some c → w.Seen c ∧ c.turnId = turnId := fun w w' hgrows hw ↦
      ⟨trivial, fun c hc ↦ ⟨(hw.2 c hc).1.grows hgrows, (hw.2 c hc).2⟩⟩
    cases found with
    | none => exact rights_done _ hlasting
    | some context =>
      dsimp only
      split
      · exact rights_done _ hlasting
      · refine rights_call hlasting (fun _ _ _ ↦ trivial) fun now ↦ ?_
        split
        · exact rights_done _ hlasting
        · rename_i golden hgolden
          refine rights_store.imp (stable hlasting) fun w hw ↦ ?_
          exact ⟨context, now, (hw.2 context rfl).1, rfl, hgolden, rfl⟩

/-- The workers keep the contract. -/
theorem sound (p : Packaging) : Contract.Sound (packaging p) Terms.any (exports p) where
  spawn _ _ hw := ⟨fun r hr ↦ hw.2.packaged r hr, hw.2.archive⟩
  call i _ _ now _ hw hop _ _ := (hw.2.call hop i now).1
  body w r _ _ := by
    refine ⟨fun _ ↦ True, trivial, ?_⟩
    cases r with
    | package turnId => exact rights_package
    | rewriteTables db => exact rights_perform (fun _ _ _ _ ↦ trivial) fun _ _ _ ↦ trivial
  gone i := Contract.Stable.true i

end Exports

theorem Depot.sound_of_reachable {p : Packaging}
    {c : Config ExportOp PackageError Handling Archive Unit} (h : (packaging p).Reachable c) :
    Depot.Sound p c.world := by
  refine ((Exports.sound p).good (fun a ha ↦ ?_) (fun _ _ ↦ trivial) h).here.2
  have hlines : a.corpus.lines = [] := by rw [ha.2]; rfl
  refine ⟨fun r hr ↦ ?_, ?_, ⟨?_, ?_⟩, ?_, ?_, ?_⟩
  · rw [ha.1] at hr
    cases hr
  · rw [ha.1]
    exact Unique.nil
  · rw [ha.2]
    exact Unique.nil
  · rw [ha.2]
    simp
  · rw [hlines]
    simp
  · rw [hlines]
    exact List.nodup_nil
  · rw [ha.1]
    simp

/-! ## The result -/

/-- No turn is in the corpus twice; every line reads as the document of an eligible record and
satisfies the formula; a shard that is written down in a record contains its turn. -/
structure Archive.ExactlyOnce (a : Archive) : Prop where
  whole : a.corpus.Whole
  once : ∀ u, (a.corpus.lines.filter fun l ↦ decide (lineHas u l = .ok true)).length ≤ 1
  eligible : ∀ l ∈ a.corpus.lines, ∃ r ∈ a.records, r.trainingEligible = true ∧
    Json.loads l = some r.golden ∧ Qualifies r.golden
  linked : ∀ r ∈ a.records, ∀ s, r.shardFile = some s →
    ∃ f ∈ a.corpus, f.name = s ∧ f.contains (uuidText r.turnId) = .ok true

/-- A line that can be found among readable ones is found. -/
theorem anyLine_of_mem {u l : Text} {ls : List Text} (hread : ∀ l ∈ ls, ∃ b, lineHas u l = .ok b)
    (hl : l ∈ ls) (h : lineHas u l = .ok true) : anyLine u ls = .ok true := by
  induction ls with
  | nil => cases hl
  | cons x ls ih =>
    obtain ⟨b, hb⟩ := hread x List.mem_cons_self
    rw [anyLine, hb]
    cases b with
    | true => rfl
    | false =>
      refine ih (fun l hl ↦ hread l (List.mem_cons_of_mem _ hl)) ?_
      rcases List.mem_cons.mp hl with rfl | hl
      · rw [hb] at h
        cases h
      · exact hl

/-- **Every eligible turn is exported exactly once**: whatever workers package whatever turns, die
and try again, and whatever happens to the tables in between. -/
theorem exported_once {p : Packaging} {c : Config ExportOp PackageError Handling Archive Unit}
    (h : (packaging p).Reachable c) : c.world.state.ExactlyOnce := by
  obtain ⟨hpackaged, hturnIds, hwhole, hlines, honce, hlinked⟩ := Depot.sound_of_reachable h
  refine ⟨hwhole, fun u ↦ ?_, fun l hl ↦ ?_, fun r hr s hs ↦ ?_⟩
  · have hkeys : Unique id c.world.state.corpus.lines := by
      rw [Tables.Unique, List.map_id]
      exact honce
    -- two lines with one utterance are lines of one record
    refine hkeys.length_filter_le_one fun l hl l' hl' hu hu' ↦ ?_
    obtain ⟨r, hr, -, rfl⟩ := hlines l hl
    obtain ⟨r', hr', -, rfl⟩ := hlines l' hl'
    rw [decide_eq_true_eq, (hpackaged r hr).lineHas, Except.ok.injEq, beq_iff_eq] at hu
    rw [decide_eq_true_eq, (hpackaged r' hr').lineHas, Except.ok.injEq, beq_iff_eq] at hu'
    rw [hturnIds.eq hr hr' (uuidText_injective (hu.trans hu'.symm))]
  · obtain ⟨r, hr, heligible, rfl⟩ := hlines l hl
    obtain ⟨g, hjson, -⟩ := (hpackaged r hr).exists_golden
    refine ⟨r, hr, heligible, ?_, ?_⟩
    · rw [← hjson]
      exact Json.loads_dumps g.proper
    · obtain ⟨context, now, golden, -, -, hgolden, hread, hverdict⟩ := hpackaged r hr
      obtain ⟨label, -, rfl⟩ := goldenRecord_eq_ok.mp hgolden
      rw [hread]
      exact (qualifies_iff p.jsonb).mpr (hverdict.symm.trans heligible)
  · obtain ⟨f, hf, hname, hl⟩ := hlinked r hr s hs
    obtain ⟨hbroken, htail⟩ := hwhole.complete f hf
    have hall : f.allLines = f.lines := by
      rw [Shard.allLines, htail, if_pos rfl, List.append_nil]
    refine ⟨f, hf, hname, ?_⟩
    rw [Shard.contains_eq hbroken, hall]
    refine anyLine_of_mem (fun l hl ↦ ?_) hl ?_
    · obtain ⟨r', hr', -, rfl⟩ := hlines l (Corpus.mem_lines.mpr ⟨f, hf, hl⟩)
      exact ⟨_, (hpackaged r' hr').lineHas _⟩
    · rw [(hpackaged r hr).lineHas, beq_self_eq_true]

/-! ## A worker that dies -/

/-- The tables around the turn `kiteTurn` is about, with the mother tongue of the speaker. -/
def kiteTables (nativeLang : Text) : Db where
  players := [⟨3, "Mira".toList, nativeLang, ["hi".toList]⟩]
  queue := []
  pairs := [⟨2, 3, 4, "hi".toList, .active, 0⟩]
  decks := []
  cards := [⟨5, 6, true⟩]
  turns := [⟨1, 2, 3, 4, 5, .scored, some (.webm 1), some (.flac 1), some 3,
    (kiteTurn kiteLabels).quality, 1, .validated, 0⟩]
  jobs := []
  fingerprints := []

/-- Nothing has been packaged yet. -/
def kiteArchive : Archive := ⟨kiteTables "ta".toList, [], [], fun _ ↦ 0⟩

/-- One label, and documents kept as they are. -/
def kitePackaging : Packaging :=
  ⟨fun _ ↦ LabelMap.single "en".toList "Kite".toList, fun _ ↦ Json.Number.ofNat 3,
    Json.Store.verbatim, 500⟩

/-- The first worker dies between the append and the note of the shard; the second one finds the
line. -/
def dyingWorker : List (Event Handling Time PackageError) :=
  .spawn (.package 1) :: List.replicate 10 (.step 0 0) ++ .kill 0 :: .spawn (.package 1) ::
    List.replicate 8 (.step 1 0)

/-- The turn is in the corpus once, and its record knows where. -/
theorem exported_once_dyingWorker :
    ∃ c, (packaging kitePackaging).Reachable c ∧ c.world.state.ExactlyOnce ∧
      c.world.state.records.map RecordRow.shardFile = [some (shardName 1)] := by
  have hinit : (packaging kitePackaging).init kiteArchive := ⟨rfl, rfl⟩
  obtain ⟨c, hc, hcheck⟩ := System.exists_reachable_of_run hinit
    (show ((packaging kitePackaging).run (System.start kiteArchive) dyingWorker).map
      (fun c ↦ decide (c.world.state.records.map RecordRow.shardFile =
        [some (shardName 1)])) = some true by decide +kernel)
  exact ⟨c, hc, exported_once hc, of_decide_eq_true hcheck⟩

end Neva
