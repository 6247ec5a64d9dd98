import Neva.Tune.Supervisor

/-!
# Requests that are understood

The service and the supervisor are two programs with two sets of checks, and what they agree on is
a document.  Here is what becomes of every request the service writes: the supervisor accepts it
and changes none of its fields (`validateRequest_fields`), because a language the service lets
through has no slash and no backslash, and so nothing in it looks like a path.

The command line is another matter.  The language is put on it as the value of an option, and a
value that begins with a dash is one only by exception (`ReadsAsValue`).  So smoke training is
always understood, and live inference if and only if the language reads as a value
(`requests_understood_iff`).
-/

set_option autoImplicit false

namespace Neva.Supervisor

open Argparse TuneAdmin

variable {py : Python}

/-! ## Text that is left as it is -/

/-- Without a slash and a backslash there is no path. -/
theorem redactPaths_eq_self {s : Text} (hslash : '/' ∉ s) (hback : '\\' ∉ s)
    (previous : Option Char) : redactPaths previous false s = s := by
  induction s generalizing previous with
  | nil => rfl
  | cons c rest ih =>
    have hbegins : pathBegins previous (c :: rest) = false := by
      rw [pathBegins.eq_def]
      split
      · rename_i heq
        cases heq
        simp at hslash
      · rename_i heq
        cases heq
        simp at hback
      · rfl
    rw [List.mem_cons, not_or] at hslash hback
    simp [redactPaths, hbegins, ih hslash.2 hback.2]

/-- A language the service lets through is left as it is. -/
theorem boundedText_eq_self {s : Text} {limit : ℕ} (hlang : py.language s = true)
    (hline : oneLine isSpace ' ' s = s) (hlen : s.length ≤ limit) : boundedText s limit = s := by
  rw [boundedText, hline, redactPaths_eq_self
    (py.notMem_language hlang (by decide) (by decide) (by decide))
    (py.notMem_language hlang (by decide) (by decide) (by decide)),
    List.take_of_length_le hlen]

/-! ## What is validated -/

/-- **A request is accepted as it is** if each of its fields is. -/
theorem validateRequest_fields {request : SupervisorRequest} {members : List (Text × Json)}
    {source : Text} (hmembers : members.Perm (request.fields.map fun f ↦ (f.1, .str f.2)))
    (hid : jobIdPattern request.jobId = true)
    (hsource : removeSuffix ".json".toList (removeSuffix ".processing.json".toList source) =
      request.jobId)
    (hcreated : parseCreatedAt py (some (.str request.createdAt)) = .ok request.createdAt)
    (hlive : ∀ u l, request.live = some (u, l) →
      parseUploadName py (some (.str u)) = .ok u ∧ parseLanguage (some (.str l)) = .ok l) :
    validateRequest py members source = .ok request := by
  obtain ⟨jobId, createdAt, live⟩ := request
  have hjob : parseJobId (some (.str jobId)) = .ok jobId := by
    rw [parseJobId, if_pos hid]
  have hunsupported (allowed : List Text) (fields : List (Text × Json))
      (h : members.Perm fields) :
      unsupportedFields members allowed = unsupportedFields fields allowed := by
    rw [unsupportedFields, unsupportedFields, h.all_eq]
    simp only [h.any_eq]
  have hlookup (fields : List (Text × Json)) (hn : (fields.map Prod.fst).Nodup)
      (h : members.Perm fields) (name : Text) :
      Json.lookup members name = Json.lookup fields name :=
    (Json.lookup_perm h.symm hn name).symm
  cases live with
  | none =>
    have hfields :=
      hlookup [("job_id".toList, .str jobId), ("kind".toList, .str "train_smoke".toList),
      ("created_at".toList, .str createdAt)] (by simp) hmembers
    rw [validateRequest, hfields, hfields, hfields]
    simp only [hunsupported _ _ hmembers]
    show (parseJobId (some (.str jobId)) >>= _) = _
    rw [hjob]
    show (if removeSuffix _ (removeSuffix _ source) ≠ jobId then _ else _) = _
    rw [if_neg (not_not.mpr hsource)]
    show (parseCreatedAt py (some (.str createdAt)) >>= _) = _
    rw [hcreated]
    rfl
  | some live =>
    obtain ⟨uploadName, language⟩ := live
    obtain ⟨hupload, hlanguage⟩ := hlive uploadName language rfl
    have hfields :=
      hlookup [("job_id".toList, .str jobId), ("kind".toList, .str "infer_live".toList),
      ("created_at".toList, .str createdAt), ("upload_name".toList, .str uploadName),
      ("native_language".toList, .str language)] (by simp) hmembers
    rw [validateRequest, hfields, hfields, hfields, hfields, hfields]
    simp only [hunsupported _ _ hmembers]
    show (parseJobId (some (.str jobId)) >>= _) = _
    rw [hjob]
    show (if removeSuffix _ (removeSuffix _ source) ≠ jobId then _ else _) = _
    rw [if_neg (not_not.mpr hsource)]
    show (parseCreatedAt py (some (.str createdAt)) >>= _) = _
    rw [hcreated]
    show (parseUploadName py (some (.str uploadName)) >>= _) = _
    rw [hupload]
    show (parseLanguage (some (.str language)) >>= _) = _
    rw [hlanguage]
    rfl

/-! ## What is written -/

/-- A document of texts is read back with its members in some order. -/
theorem read_fields (files : Json.Store) {fields : List (Text × Text)}
    (hn : (fields.map Prod.fst).Nodup) :
    ∃ members, files.read (.obj (fields.map fun f ↦ (f.1, .str f.2))) = .obj members ∧
      members.Perm (fields.map fun f ↦ (f.1, .str f.2)) := by
  obtain ⟨members, hread, hperm⟩ := files.read_obj (fields.map fun f ↦ (f.1, .str f.2))
  refine ⟨members, hread, ?_⟩
  have h := hperm (by rwa [List.map_map])
  rwa [List.map_map, List.map_congr_left fun f _ ↦ by
    show (f.1, files.read (.str f.2)) = (f.1, Json.str f.2)
    rw [files.read_str]] at h

theorem isAlphanum_digitChar : ∀ d < 16, (Nat.digitChar d).isAlphanum = true := by decide

/-- An identifier is a job identifier. -/
theorem jobIdPattern_uuidText {u : Uuid} (hu : u < 2 ^ 128) : jobIdPattern (uuidText u) = true := by
  obtain ⟨hlen, d, hd, hhead⟩ := uuidText_shape hu
  have hall : ∀ c ∈ uuidText u, (c.isAlphanum || c == '_' || c == '-') = true := by
    intro c hc
    rcases mem_uuidText hc with rfl | ⟨d, hd, rfl⟩
    · rfl
    · rw [isAlphanum_digitChar d hd]
      rfl
  cases htext : uuidText u with
  | nil => exact absurd htext (uuidText_ne_nil u)
  | cons c rest =>
    rw [htext] at hlen hhead hall
    rw [jobIdPattern, Option.some.inj hhead, isAlphanum_digitChar d hd,
      List.all_eq_true.mpr fun c hc ↦ hall c (List.mem_cons_of_mem _ hc)]
    simp at hlen
    simp [hlen]

theorem pathSuffix_append {x e : Text} (hx : x ≠ []) (he : e ≠ []) (hdot : '.' ∉ e) :
    pathSuffix (x ++ '.' :: e) = '.' :: e := by
  have hall : ∀ c ∈ e.reverse, decide (c ≠ '.') = true := by
    intro c hc
    simpa using ne_of_mem_of_not_mem (List.mem_reverse.mp hc) hdot
  have hrev : (x ++ '.' :: e).reverse = e.reverse ++ '.' :: x.reverse := by simp
  have htake : (x ++ '.' :: e).rtakeWhile (· ≠ '.') = e := by
    rw [List.rtakeWhile, hrev, List.takeWhile_append_of_pos hall]
    simp
  have hdrop : (x ++ '.' :: e).rdropWhile (· ≠ '.') = x ++ ['.'] := by
    rw [List.rdropWhile, hrev, List.dropWhile_append_of_pos hall]
    simp
  obtain ⟨c, x, rfl⟩ := List.exists_cons_of_ne_nil hx
  rw [pathSuffix, hdrop, List.dropLast_concat, htake]
  simp [he]

/-- An identifier with an extension is the name of an upload. -/
theorem parseUploadName_uuidText {u : Uuid} (hu : u < 2 ^ 128) {extension : Text}
    (hextension : extension ∈ allowedUploadSuffixes) :
    parseUploadName py (some (.str (uuidText u ++ extension))) =
      .ok (uuidText u ++ extension) := by
  have hfacts : allowedUploadSuffixes.all (fun s ↦ s.head? == some '.' && s.tail ≠ [] &&
      !s.tail.elem '.' && s.all (fun c ↦ c.toNat < 128 && (c.isAlphanum || c == '.')) &&
      s.map Char.toLower == s && s.length ≤ 5) = true := by decide
  have h := List.all_eq_true.mp hfacts extension hextension
  simp only [Bool.and_eq_true, beq_iff_eq, decide_eq_true_eq, Bool.not_eq_true', List.all_eq_true]
    at h
  obtain ⟨⟨⟨⟨⟨hhead, htail⟩, hdot⟩, hchars⟩, hlower⟩, hlength⟩ := h
  obtain ⟨e, rfl⟩ : ∃ e, extension = '.' :: e := ⟨_, List.eq_cons_of_mem_head? hhead⟩
  rw [List.tail_cons] at htail hdot
  have hpattern : uploadNamePattern (uuidText u ++ '.' :: e) = true := by
    obtain ⟨hlen, d, hd, hfirst⟩ := uuidText_shape hu
    obtain ⟨c, rest, htext⟩ := List.exists_cons_of_ne_nil (uuidText_ne_nil u)
    have hall : ∀ x ∈ uuidText u ++ '.' :: e,
        (x.isAlphanum || x == '_' || x == '.' || x == '-') = true := by
      intro x hx
      rcases List.mem_append.mp hx with hx | hx
      · rcases mem_uuidText hx with rfl | ⟨d, hd, rfl⟩
        · rfl
        · simp [isAlphanum_digitChar d hd]
      · have := (hchars x hx).2
        simp only [Bool.or_eq_true] at this ⊢
        tauto
    rw [htext] at hlen hfirst
    rw [htext, List.cons_append] at hall
    rw [htext, List.cons_append, uploadNamePattern, Option.some.inj hfirst,
      isAlphanum_digitChar d hd, List.all_eq_true.mpr fun x hx ↦ hall x (List.mem_cons_of_mem _ hx)]
    simp at hlen hlength ⊢
    omega
  have hsuffix := pathSuffix_append (uuidText_ne_nil u) htail (by simpa using hdot)
  rw [parseUploadName, hpattern, hsuffix, py.lower_ascii _ fun c hc ↦ (hchars c hc).1, hlower,
    List.elem_eq_true_of_mem hextension]
  rfl

theorem removeSuffix_append (s suffix : Text) : removeSuffix suffix (s ++ suffix) = s := by
  rw [removeSuffix, if_pos (by simp)]
  simp

theorem removeSuffix_of_notMem {s suffix : Text} (hs : '.' ∉ s) :
    removeSuffix ('.' :: suffix) s = s := by
  rw [removeSuffix, if_neg]
  intro h
  exact hs ((List.isSuffixOf_iff_suffix.mp h).subset List.mem_cons_self)

/-- The name of the request file, before and after it has been claimed. -/
theorem removeSuffix_source {u : Uuid} {source : Text}
    (h : source ∈ [uuidText u ++ ".json".toList, uuidText u ++ ".processing.json".toList]) :
    removeSuffix ".json".toList (removeSuffix ".processing.json".toList source) = uuidText u := by
  have hdot : '.' ∉ uuidText u := notMem_uuidText (by decide) (by decide) u
  simp only [List.mem_cons, List.not_mem_nil, or_false] at h
  rcases h with rfl | rfl
  · have hno : ¬".processing.json".toList <:+ uuidText u ++ ".json".toList := by
      rintro ⟨t, ht⟩
      have hsplit : t ++ ".processing".toList = uuidText u := by
        have hboth : (t ++ ".processing".toList) ++ ".json".toList =
            uuidText u ++ ".json".toList := by
          rw [← ht, List.append_assoc]
          rfl
        exact List.append_cancel_right hboth
      exact hdot (hsplit ▸ List.mem_append_right t (by decide))
    have hkept : removeSuffix ".processing.json".toList (uuidText u ++ ".json".toList) =
        uuidText u ++ ".json".toList := by
      rw [removeSuffix, if_neg (by simpa using hno)]
    rw [hkept, removeSuffix_append]
  · rw [removeSuffix_append]
    exact removeSuffix_of_notMem hdot

theorem parseCreatedAt_isoformat {t : Time} (ht : t < 253402300800000000) :
    parseCreatedAt py (some (.str (isoformat t))) = .ok (isoformat t) := by
  have hZ : 'Z' ∉ isoformat t := by
    intro h
    rcases mem_isoformat h with h | h
    · exact absurd h (by decide)
    · exact absurd h (by decide)
  have hreplace : replaceZ (isoformat t) = isoformat t := by
    rw [replaceZ, List.flatMap_congr (g := fun c ↦ [c]) fun c hc ↦
      if_neg (ne_of_mem_of_not_mem hc hZ)]
    exact List.flatMap_singleton' _
  rw [parseCreatedAt, hreplace, py.fromisoformat_isoformat t ht]

/-! ## Command lines -/

/-- The value of an option on the command line of `tune.compare`: what does not begin with a dash,
a dash alone, and what begins with one but not with `-h` and is a negative number or has a blank. -/
def ReadsAsValue (py : Python) (language : Text) : Prop :=
  language.head? ≠ some '-' ∨ language = ['-'] ∨
    ¬['-', 'h'] <+: language ∧ (isNegativeNumber py.isDecimal language = true ∨ ' ' ∈ language)

instance (language : Text) : Decidable (ReadsAsValue py language) :=
  inferInstanceAs (Decidable (_ ∨ _ ∨ ¬_ ∧ (_ ∨ _)))

/-- The option strings of `tune.compare` are `-h` and some that begin with two dashes; they have no
blank. -/
theorem mem_optionStrings {o : Text × Argument} (h : o ∈ (compareParser py).optionStrings) :
    ' ' ∉ o.1 ∧ (o.1 = ['-', 'h'] ∨ ['-', '-'] <+: o.1) := by
  have hall : (compareParser py).optionStrings.all (fun o ↦
      !o.1.elem ' ' && (o.1 == ['-', 'h'] || ['-', '-'].isPrefixOf o.1)) = true := by
    simp [compareParser, Parser.optionStrings, Argument.help, List.isPrefixOf]
  have := List.all_eq_true.mp hall o h
  simpa using this

/-- What is found among the option strings is one. -/
theorem mem_of_named? {p : Parser} {t : Text} {a : Argument} (h : p.named? t = some a) :
    (t, a) ∈ p.optionStrings := by
  rw [Parser.named?, Option.map_eq_some_iff] at h
  obtain ⟨o, ho, rfl⟩ := h
  have := List.find?_some ho
  rw [beq_iff_eq] at this
  exact this ▸ List.mem_of_find?_eq_some ho

/-- Two dashes: an option, the beginning of one, or nothing an option is recognised in. -/
theorem isValue_dashes {s : Text} (heq : '=' ∉ s) :
    (compareParser py).isValue ('-' :: '-' :: s) = true ↔ ' ' ∈ s := by
  have hneg : isNegativeNumber (compareParser py).isDecimal ('-' :: '-' :: s) = false := by
    have hdecimal : py.isDecimal '-' = false := by
      rw [py.isDecimal_ascii '-' (by decide)]
      rfl
    simp [isNegativeNumber, compareParser, hdecimal]
  have heq' : '=' ∉ '-' :: '-' :: s := by simpa using heq
  have hblank {o : Text × Argument} (ho : o ∈ (compareParser py).optionStrings)
      (hp : '-' :: '-' :: s <+: o.1) : ' ' ∉ s := fun hs ↦
    (mem_optionStrings ho).1 (hp.subset (by simp [hs]))
  cases hexact : (compareParser py).named? ('-' :: '-' :: s) with
  | some a =>
    have hnone := hblank (mem_of_named? hexact) (List.prefix_refl _)
    simp [Parser.isValue_of_exact rfl hexact, hnone]
  | none =>
    have htake : ('-' :: '-' :: s).takeWhile (· ≠ '=') = '-' :: '-' :: s :=
      List.takeWhile_eq_self_iff.mpr fun c hc ↦ by simpa using ne_of_mem_of_not_mem hc heq'
    by_cases htuples : (compareParser py).optionTuples ('-' :: '-' :: s) = []
    · have hne : '-' :: '-' :: s ≠ "--".toList := by
        intro h
        cases h
        cases htuples
      rw [Parser.isValue_of_optionTuples rfl hexact (by simp) heq' htuples hne, hneg]
      simp
    · rw [Parser.isValue_eq_false rfl hexact (by simp) heq' htuples]
      rw [Parser.optionTuples, htake, List.map_eq_nil_iff, List.filter_eq_nil_iff] at htuples
      push Not at htuples
      obtain ⟨o, ho, hp⟩ := htuples
      simpa using hblank ho (List.isPrefixOf_iff_prefix.mp hp)

/-- One dash: `-h`, or nothing an option is recognised in. -/
theorem isValue_dash {c : Char} {s : Text} (hc : c ≠ '-') (heq : '=' ∉ '-' :: c :: s) :
    (compareParser py).isValue ('-' :: c :: s) = true ↔ c ≠ 'h' ∧
      (isNegativeNumber py.isDecimal ('-' :: c :: s) = true ∨ ' ' ∈ '-' :: c :: s) := by
  have hno {o : Text × Argument} (ho : o ∈ (compareParser py).optionStrings) (hh : c ≠ 'h')
      {r : Text} : ¬ '-' :: c :: r <+: o.1 := by
    intro hp
    rcases (mem_optionStrings ho).2 with h | ⟨r', h⟩
    · rw [h] at hp
      obtain ⟨t, ht⟩ := hp
      simp [hh] at ht
    · rw [← h] at hp
      obtain ⟨t, ht⟩ := hp
      simp [hc] at ht
  cases hexact : (compareParser py).named? ('-' :: c :: s) with
  | some a =>
    have hh : c = 'h' := by
      by_contra hh
      exact hno (mem_of_named? hexact) hh (List.prefix_refl _)
    subst hh
    simp [Parser.isValue_of_exact rfl hexact]
  | none =>
    by_cases hh : c = 'h'
    · subst hh
      have htuples : (compareParser py).optionTuples ('-' :: 'h' :: s) ≠ [] := by
        simp [Parser.optionTuples, Parser.optionStrings, Argument.help]
      simp [Parser.isValue_eq_false rfl hexact (by simp) heq htuples]
    · have htuples : (compareParser py).optionTuples ('-' :: c :: s) = [] := by
        rw [Parser.optionTuples.eq_def]
        split
        · rename_i h
          cases h
          exact absurd rfl hc
        · rename_i h
          cases h
          rw [List.filterMap_eq_nil_iff]
          intro o ho
          have h₁ : o.1 ≠ ['-', c] := by
            intro h
            refine hno ho hh (r := []) ?_
            rw [h]
          have h₂ : ('-' :: c :: s).isPrefixOf o.1 = false :=
            Bool.eq_false_iff.mpr fun h ↦ hno ho hh (List.isPrefixOf_iff_prefix.mp h)
          rw [if_neg h₁, h₂]
          rfl
        · rfl
      have hne : '-' :: c :: s ≠ "--".toList := by
        intro h
        cases h
        exact hc rfl
      rw [Parser.isValue_of_optionTuples rfl hexact (by simp) heq htuples hne]
      simp [hh, compareParser]

theorem isValue_iff {language : Text} (hlang : py.language language = true) :
    (compareParser py).isValue language = true ↔ ReadsAsValue py language := by
  have heq : '=' ∉ language := py.notMem_language hlang (by decide) (by decide) (by decide)
  by_cases hhead : language.head? = some '-'
  · obtain ⟨s, rfl⟩ : ∃ s, language = '-' :: s := ⟨_, List.eq_cons_of_mem_head? hhead⟩
    rcases s with - | ⟨c, s⟩
    · have hvalue : (compareParser py).isValue ['-'] = true := rfl
      simp [hvalue, ReadsAsValue]
    · by_cases hdash : c = '-'
      · subst hdash
        have hdecimal : py.isDecimal '-' = false := by
          rw [py.isDecimal_ascii '-' (by decide)]
          rfl
        have hneg : isNegativeNumber py.isDecimal ('-' :: '-' :: s) = false := by
          simp [isNegativeNumber, hdecimal]
        rw [isValue_dashes (fun h ↦ heq (by simp [h])), ReadsAsValue, hneg]
        simp
      · rw [isValue_dash hdash heq, ReadsAsValue]
        have hbegins : ['-', 'h'] <+: '-' :: c :: s ↔ c = 'h' := by
          simp [List.cons_prefix_cons, eq_comm (a := c)]
        rw [hbegins]
        simp
  · simp [Parser.isValue_of_head hhead, ReadsAsValue, hhead]

theorem isInteger_one : isInteger py "1".toList = true := by
  have h : py.isDecimal '1' = true := by
    rw [py.isDecimal_ascii '1' (by decide)]
    rfl
  have hone : isInteger py "1".toList = (py.isDecimal '1' && true && true) := rfl
  rw [hone, h]
  rfl

theorem HostPath.isValue {p : Parser} (path : HostPath) : p.isValue path.text = true :=
  Parser.isValue_of_head (by simp [path.absolute])

/-- The options of the command line for smoke training, and their values. -/
def smokeOptions (py : Python) (settings : SupervisorSettings)
    (events result jobRoot : HostPath) : List (Argument × Text) := [
  ({ name := "--train".toList, required := true },
    (settings.preparedDir.child "train.jsonl".toList).text),
  ({ name := "--dataset-manifest".toList },
    (settings.preparedDir.child "dataset_manifest.json".toList).text),
  ({ name := "--output".toList }, (jobRoot.child "artifacts".toList).text),
  ({ name := "--max-steps".toList, accepts := isInteger py }, "1".toList),
  ({ name := "--events".toList }, events.text),
  ({ name := "--result".toList }, result.text)]

/-- The options of the command line for live inference, and their values. -/
def liveOptions (py : Python) (settings : SupervisorSettings) (events result : HostPath)
    (uploadName language : Text) : List (Argument × Text) := [
  ({ name := "--holdout".toList, required := true },
    (settings.preparedDir.child "holdout.jsonl".toList).text),
  ({ name := "--dataset-manifest".toList },
    (settings.preparedDir.child "dataset_manifest.json".toList).text),
  ({ name := "--adapter".toList }, settings.fullAdapter.text),
  ({ name := "--artifact-manifest".toList }, settings.artifactManifest.text),
  ({ name := "--samples".toList, accepts := isInteger py }, "1".toList),
  ({ name := "--live-audio".toList }, (settings.uploadsDir.child uploadName).text),
  ({ name := "--native-language".toList }, language),
  ({ name := "--events".toList }, events.text),
  ({ name := "--result".toList }, result.text)]

variable {settings : SupervisorSettings} {events result jobRoot : HostPath}
  {uploadName language : Text}

theorem names_smokeOptions :
    ∀ m ∈ smokeOptions py settings events result jobRoot, (trainParser py).Names m.1 := by
  simp only [smokeOptions, List.forall_mem_cons]
  exact ⟨⟨rfl, rfl⟩, ⟨rfl, rfl⟩, ⟨rfl, rfl⟩, ⟨rfl, rfl⟩, ⟨rfl, rfl⟩, ⟨rfl, rfl⟩, by simp⟩

theorem names_liveOptions : ∀ m ∈ liveOptions py settings events result uploadName language,
    (compareParser py).Names m.1 := by
  simp only [liveOptions, List.forall_mem_cons]
  exact ⟨⟨rfl, rfl⟩, ⟨rfl, rfl⟩, ⟨rfl, rfl⟩, ⟨rfl, rfl⟩, ⟨rfl, rfl⟩, ⟨rfl, rfl⟩, ⟨rfl, rfl⟩,
    ⟨rfl, rfl⟩, ⟨rfl, rfl⟩, by simp⟩

/-- What is stored for smoke training. -/
theorem parse_smokeOptions :
    (trainParser py).parse
        ((smokeOptions py settings events result jobRoot).flatMap fun m ↦ [m.1.name, m.2]) =
      some ((smokeOptions py settings events result jobRoot).map fun m ↦ (m.1.name, m.2)) := by
  have hone : (trainParser py).isValue "1".toList = true := Parser.isValue_of_head (by decide)
  have hvalues : ∀ m ∈ smokeOptions py settings events result jobRoot,
      (trainParser py).isValue m.2 = true ∧ m.1.accepts m.2 = true := by
    simp only [smokeOptions, List.forall_mem_cons, HostPath.isValue, hone, isInteger_one]
    simp
  rw [Parser.parse, (Parser.consume_flatMap_eq_some names_smokeOptions).mpr ⟨hvalues, rfl⟩]
  rfl

/-- **The language is stored** if it reads as a value; otherwise the program exits. -/
theorem parse_liveOptions {parsed : Namespace} :
    (compareParser py).parse ((liveOptions py settings events result uploadName language).flatMap
        fun m ↦ [m.1.name, m.2]) = some parsed ↔
      (compareParser py).isValue language = true ∧
        parsed = (liveOptions py settings events result uploadName language).map
          fun m ↦ (m.1.name, m.2) := by
  have hone : (compareParser py).isValue "1".toList = true := Parser.isValue_of_head (by decide)
  have hvalues : (∀ m ∈ liveOptions py settings events result uploadName language,
      (compareParser py).isValue m.2 = true ∧ m.1.accepts m.2 = true) ↔
      (compareParser py).isValue language = true := by
    simp only [liveOptions, List.forall_mem_cons, HostPath.isValue, hone, isInteger_one]
    simp
  rw [Parser.parse, Option.filter_eq_some_iff, Parser.consume_flatMap_eq_some names_liveOptions,
    hvalues]
  constructor
  · exact fun h ↦ h.1
  · rintro ⟨hvalue, rfl⟩
    exact ⟨⟨hvalue, rfl⟩, rfl⟩

theorem buildCommand_smoke {isUpload : Text → Bool} {jobId createdAt : Text} :
    buildCommand settings isUpload ⟨jobId, createdAt, none⟩ events result jobRoot =
      .ok (common ++ "tune.train".toList ::
        (smokeOptions py settings events result jobRoot).flatMap (fun m ↦ [m.1.name, m.2]),
        settings.trainTimeoutSeconds) := rfl

theorem buildCommand_live {isUpload : Text → Bool} {jobId createdAt : Text}
    (h : isUpload (settings.uploadsDir.child uploadName).text = true) :
    buildCommand settings isUpload ⟨jobId, createdAt, some (uploadName, language)⟩ events result
        jobRoot =
      .ok (common ++ "tune.compare".toList ::
        (liveOptions py settings events result uploadName language).flatMap
          (fun m ↦ [m.1.name, m.2]), settings.inferTimeoutSeconds) := by
  rw [buildCommand, buildCommandOf, h]
  rfl

/-! ## The protocol -/

/-- The started program reads its command line back: it gets to its work, for live inference with
this upload and this language. -/
def ReadBack (py : Python) (settings : SupervisorSettings) (request : SupervisorRequest)
    (argv : List Text) : Prop :=
  match request.live with
  | none => ∃ args parsed, argv = common ++ "tune.train".toList :: args ∧
      (trainParser py).parse args = some parsed
  | some (uploadName, language) => ∃ args parsed, argv = common ++ "tune.compare".toList :: args ∧
      (compareParser py).parse args = some parsed ∧
      parsed.get? "--live-audio".toList = some (settings.uploadsDir.child uploadName).text ∧
      parsed.get? "--native-language".toList = some language

/-- What is made of a request while its upload is there. -/
def Started (py : Python) (settings : SupervisorSettings) (request : SupervisorRequest)
    (upload : Option (Text × Bytes)) : Prop :=
  ∀ isUpload : Text → Bool,
    (∀ u ∈ upload, isUpload (settings.uploadsDir.child u.1).text = true) →
    ∃ argv timeout, buildCommand settings isUpload request
        (settings.commandPaths request.jobId).2.1 (settings.commandPaths request.jobId).2.2
        (settings.commandPaths request.jobId).1 = .ok (argv, timeout) ∧
      ReadBack py settings request argv

/-- The document that was left behind is accepted, under both names the file has, with every field
as it is; and the command line that is made of it is read back. -/
def Understood (py : Python) (files : Json.Store) (settings : SupervisorSettings) (q : Queued) :
    Prop :=
  ∃ members, files.read (.obj q.request) = .obj members ∧
    ∀ source ∈ [uuidText q.jobId ++ ".json".toList, uuidText q.jobId ++ ".processing.json".toList],
      ∃ request, validateRequest py members source = .ok request ∧
        q.request = request.fields.map (fun f ↦ (f.1, Json.str f.2)) ∧
        Started py settings request q.upload

variable {files : Json.Store} {desk : Desk} {q : Queued}

/-- A request of valid fields is understood if and only if its command line is. -/
theorem understood_iff (request : SupervisorRequest)
    (hrequest : q.request = request.fields.map fun f ↦ (f.1, Json.str f.2))
    (hq : q.jobId = desk.newUuid) (hid : request.jobId = uuidText desk.newUuid)
    (hcreated : request.createdAt = isoformat desk.now)
    (hlive : ∀ u l, request.live = some (u, l) →
      parseUploadName py (some (.str u)) = .ok u ∧ parseLanguage (some (.str l)) = .ok l) :
    Understood py files settings q ↔ Started py settings request q.upload := by
  have hnodup : (request.fields.map Prod.fst).Nodup := by
    rw [SupervisorRequest.fields]
    split <;> simp
  obtain ⟨members, hread, hmembers⟩ := read_fields files hnodup
  have hvalid {source : Text} (hs : source ∈
      [uuidText q.jobId ++ ".json".toList, uuidText q.jobId ++ ".processing.json".toList]) :
      validateRequest py members source = .ok request := by
    rw [hq] at hs
    refine validateRequest_fields hmembers ?_ ((removeSuffix_source hs).trans hid.symm) ?_ hlive
    · rw [hid]
      exact jobIdPattern_uuidText desk.newUuid_lt
    · rw [hcreated]
      exact parseCreatedAt_isoformat desk.now_lt
  constructor
  · rintro ⟨members', hread', hall⟩
    rw [hrequest, hread, Json.obj.injEq] at hread'
    subst hread'
    obtain ⟨request', hvalid', -, hstarted⟩ := hall _ List.mem_cons_self
    rw [hvalid List.mem_cons_self, Except.ok.injEq] at hvalid'
    exact hvalid' ▸ hstarted
  · intro h
    exact ⟨members, hrequest ▸ hread, fun source hs ↦ ⟨request, hvalid hs, hrequest, h⟩⟩

theorem started_smoke {jobId createdAt : Text} {upload : Option (Text × Bytes)} :
    Started py settings ⟨jobId, createdAt, none⟩ upload :=
  fun _ _ ↦ ⟨_, _, buildCommand_smoke, _, _, rfl, parse_smokeOptions⟩

theorem started_live {jobId createdAt uploadName language : Text} {audio : Bytes} :
    Started py settings ⟨jobId, createdAt, some (uploadName, language)⟩
      (some (uploadName, audio)) ↔ (compareParser py).isValue language = true := by
  constructor
  · intro h
    obtain ⟨argv, timeout, hbuild, args, parsed, hargv, hparse, -⟩ := h (fun _ ↦ true) fun _ _ ↦ rfl
    rw [buildCommand_live rfl, Except.ok.injEq, Prod.mk.injEq] at hbuild
    rw [← hbuild.1, List.append_cancel_left_eq, List.cons.injEq] at hargv
    rw [← hargv.2] at hparse
    exact (parse_liveOptions.mp hparse).1
  · intro h isUpload hupload
    exact ⟨_, _, buildCommand_live (hupload _ rfl), _, _, rfl,
      parse_liveOptions.mpr ⟨h, rfl⟩, rfl, rfl⟩

theorem extension_allowed (type : Text) :
    ({} : TuneAdminConfig).extensionForContentType type ∈ allowedUploadSuffixes := by
  rw [TuneAdminConfig.extensionForContentType]
  cases h : ({} : TuneAdminConfig).audioTypeExtensions.find? fun e ↦ e.1 == type with
  | none => decide
  | some e =>
    have hall : ({} : TuneAdminConfig).audioTypeExtensions.all
        (fun e ↦ allowedUploadSuffixes.elem e.2) = true := by decide
    simpa using List.all_eq_true.mp hall e (List.mem_of_find?_eq_some h)

theorem smoke_understood (py : Python) (files : Json.Store) (settings : SupervisorSettings)
    (h : startSmokeTraining desk = .ok q) : Understood py files settings q := by
  obtain ⟨hid, -, hrequest⟩ := enqueue_eq_ok (startSmokeTraining_eq_ok h)
  exact (understood_iff ⟨uuidText desk.newUuid, isoformat desk.now, none⟩ hrequest hid rfl rfl
    fun _ _ h ↦ by cases h).mpr started_smoke

theorem live_understood_iff (files : Json.Store) (settings : SupervisorSettings) {audio : Bytes}
    {contentType nativeLanguage : Text}
    (h : startLiveInference py {} desk audio contentType nativeLanguage = .ok q) :
    Understood py files settings q ↔ ReadsAsValue py (oneLine isSpace ' ' nativeLanguage) := by
  obtain ⟨type, language, hcheck, henqueue⟩ := startLiveInference_eq_ok h
  obtain ⟨hline, hne, hlen, hlang⟩ := checkUpload_eq_ok hcheck
  obtain ⟨hid, hupload, hrequest⟩ := enqueue_eq_ok henqueue
  have honce : oneLine isSpace ' ' language = language := by
    rw [hline, oneLine_oneLine (by decide)]
  have hparse : parseLanguage (some (.str language)) = .ok language := by
    rw [parseLanguage, maxLanguageChars, boundedText_eq_self hlang honce hlen, if_neg hne]
  rw [understood_iff ⟨uuidText desk.newUuid, isoformat desk.now, some (_, language)⟩ hrequest hid
    rfl rfl (fun u l h ↦ by
      cases h
      exact ⟨parseUploadName_uuidText desk.newUuid_lt (extension_allowed type), hparse⟩),
    hupload, started_live, isValue_iff hlang, hline]

/-- **The request protocol**: smoke training is always understood, live inference if and only if
the language reads as the value of an option. -/
theorem requests_understood_iff (py : Python) (files : Json.Store)
    (settings : SupervisorSettings) :
    (∀ desk q, startSmokeTraining desk = .ok q → Understood py files settings q) ∧
      ∀ desk audio contentType nativeLanguage q,
        startLiveInference py {} desk audio contentType nativeLanguage = .ok q →
        (Understood py files settings q ↔
          ReadsAsValue py (oneLine isSpace ' ' nativeLanguage)) :=
  ⟨fun _ _ h ↦ smoke_understood py files settings h,
    fun _ _ _ _ _ h ↦ live_understood_iff files settings h⟩

/-! ## Two languages -/

/-- A desk at which everything is in order. -/
def openDesk : Desk where
  overview := .ok ⟨true, true, true, none⟩
  newUuid := 7
  newUuid_lt := by decide
  now := 1700000000000000
  now_lt := by decide
  staged := true
  enqueued := .ok ()

def hostSettings : SupervisorSettings where
  runtimeRoot := ⟨"/srv/tune-demo".toList, by decide⟩
  preparedDir := ⟨"/srv/prepared".toList, by decide⟩
  fullAdapter := ⟨"/srv/full/adapter".toList, by decide⟩
  artifactManifest := ⟨"/srv/full/artifact_manifest.json".toList, by decide⟩
  runRoot := ⟨"/srv/runs".toList, by decide⟩
  trainTimeoutSeconds := 1800
  inferTimeoutSeconds := 600

/-- `Hindi` reads as a value. -/
theorem hindi_understood :
    (∃ q, startSmokeTraining openDesk = .ok q ∧ Understood .ascii .verbatim hostSettings q) ∧
      ∃ q, startLiveInference .ascii {} openDesk [0] "audio/webm; codecs=opus".toList
          "Hindi".toList = .ok q ∧ Understood .ascii .verbatim hostSettings q := by
  obtain ⟨hsmoke, hlive⟩ := requests_understood_iff .ascii .verbatim hostSettings
  have hqueued : ∃ q, startLiveInference .ascii {} openDesk [0] "audio/webm; codecs=opus".toList
      "Hindi".toList = .ok q := ⟨_, rfl⟩
  obtain ⟨q, hq⟩ := hqueued
  exact ⟨⟨_, rfl, hsmoke openDesk _ rfl⟩, q, hq, (hlive _ _ _ _ q hq).mpr (by decide)⟩

/-- `-Hindi` is let through, and taken for an option. -/
theorem dashed_language_misread : ¬∀ (py : Python) (files : Json.Store)
    (settings : SupervisorSettings),
    (∀ desk q, startSmokeTraining desk = .ok q → Understood py files settings q) ∧
      ∀ desk audio contentType nativeLanguage q,
        startLiveInference py {} desk audio contentType nativeLanguage = .ok q →
        Understood py files settings q := by
  intro h
  have hlive : ∃ q, startLiveInference .ascii {} openDesk [0] "audio/webm".toList
      "-Hindi".toList = .ok q := ⟨_, rfl⟩
  obtain ⟨q, hq⟩ := hlive
  have hread := (live_understood_iff .verbatim hostSettings hq).mp
    ((h .ascii .verbatim hostSettings).2 _ _ _ _ q hq)
  revert hread
  decide

end Neva.Supervisor
