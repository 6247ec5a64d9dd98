import Neva.Deckgen.Publication

/-!
# A publication is atomic

A publication changes two stores, and no transaction spans them.  What makes it atomic all the same
is the order of its steps.  Until the transaction is committed nothing of it is in the tables, and
what it has put below `decks/` is in the staging directory or in a directory that was not there
before (`Revocable`); the handler can take all of that back.  Once it is committed there is nothing
left that raises but closing the connection, which changes neither store.

So a call that raises leaves the deck published (`Published`) or as if it had not been tried
(`Withdrawn`).  A deck that was ready or live before the call is not made to fail by it: the row is
not touched.
-/

set_option autoImplicit false

namespace Neva.Deckgen

open Calls Calls.System

/-! ## File names -/

/-- The names of two images are the same only if the cards are. -/
theorem PrintedCard.cardId_of_filename {card card' : PrintedCard} {filename : Text}
    (h : card.filename = .ok filename) (h' : card'.filename = .ok filename) :
    card.cardId = card'.cardId := by
  have hext {b : Bytes} {ext : Text} (h : imageFileExtension b = .ok ext) :
      ∃ r, ext = '.' :: r := by
    rw [imageFileExtension] at h
    split at h
    · exact ⟨_, (Except.ok.inj h).symm⟩
    · split at h
      · exact ⟨_, (Except.ok.inj h).symm⟩
      · split at h
        · exact ⟨_, (Except.ok.inj h).symm⟩
        · cases h
  have hdot (u : Uuid) : '.' ∉ uuidText u := notMem_uuidText (by decide) (by decide) u
  obtain ⟨ext, hx, h⟩ := Raising.bind_eq_ok.mp h
  obtain ⟨ext', hx', h'⟩ := Raising.bind_eq_ok.mp h'
  obtain ⟨r, rfl⟩ := hext hx
  obtain ⟨r', rfl⟩ := hext hx'
  have heq := (Except.ok.inj h).trans (Except.ok.inj h').symm
  exact uuidText_injective (append_sep_inj (hdot _) (hdot _) heq).1

/-- Under every name one of the cards has, there is the image of a card with that name. -/
def Holds (files : Files) (cards : List PrintedCard) : Prop :=
  ∀ card ∈ cards, ∃ filename, card.filename = .ok filename ∧
    ∃ other ∈ cards, other.filename = .ok filename ∧ files filename = some other.imageBytes

theorem holds_nil (files : Files) : Holds files [] := fun _ h ↦ absurd h List.not_mem_nil

theorem Holds.write {files : Files} {cards : List PrintedCard} (h : Holds files cards)
    {card : PrintedCard} {filename : Text} (hname : card.filename = .ok filename) :
    Holds (Function.update files filename (some card.imageBytes)) (cards ++ [card]) := by
  have hcard : card ∈ cards ++ [card] := by simp
  intro c hc
  rcases List.mem_append.mp hc with hc | hc
  · obtain ⟨name, hn, other, ho, hon, hfile⟩ := h c hc
    refine ⟨name, hn, ?_⟩
    by_cases heq : name = filename
    · subst heq
      exact ⟨card, hcard, hname, Function.update_self ..⟩
    · exact ⟨other, List.mem_append_left _ ho, hon, by rwa [Function.update_of_ne heq]⟩
  · rw [List.mem_singleton] at hc
    subst hc
    exact ⟨filename, hname, c, hcard, hname, Function.update_self ..⟩

/-- When no two cards have the same identifier, every card has its image. -/
theorem Holds.image {files : Files} {cards : List PrintedCard} (h : Holds files cards)
    (hnodup : (cards.map PrintedCard.cardId).Nodup) {card : PrintedCard} (hcard : card ∈ cards) :
    ∃ filename, card.filename = .ok filename ∧ files filename = some card.imageBytes := by
  obtain ⟨filename, hname, other, ho, hon, hfile⟩ := h card hcard
  have hother : other = card :=
    List.inj_on_of_nodup_map hnodup ho hcard (PrintedCard.cardId_of_filename hon hname)
  exact ⟨filename, hname, hother ▸ hfile⟩

/-! ## Rows -/

theorem Decks.insertCards_eq_ok {rows : List CardRow} {db db' : Decks}
    (h : Decks.insertCards rows db = .ok db') :
    db'.decks = db.decks ∧ db'.cards = db.cards ++ rows ∧ (rows.map CardRow.id).Nodup ∧
      ∀ row ∈ rows, ∀ c ∈ db.cards, c.id ≠ row.id := by
  induction rows generalizing db with
  | nil =>
    cases h
    simp
  | cons row rest ih =>
    obtain ⟨db₁, h₁, h⟩ := Raising.bind_eq_ok.mp h
    rw [Decks.insertCard, Raising.ite_error_eq_ok] at h₁
    obtain ⟨hnew, h₁⟩ := h₁
    cases h₁
    obtain ⟨hdecks, hcards, hnodup, hfresh⟩ := ih h
    refine ⟨hdecks, by simp [hcards], ?_, ?_⟩
    · rw [List.map_cons, List.nodup_cons]
      refine ⟨fun hmem ↦ ?_, hnodup⟩
      obtain ⟨r, hr, hid⟩ := List.mem_map.mp hmem
      exact hfresh r hr row (by simp) hid.symm
    · intro r hr c hc
      rcases List.mem_cons.mp hr with rfl | hr
      · have hnone := hnew
        simp only [List.any_eq_true, beq_iff_eq, not_exists, not_and] at hnone
        exact hnone c hc
      · exact hfresh r hr c (by simp [hc])

namespace PostgresPublisher

variable {jsonb : Json.Store} {β : Type} {o : Edition} {s₀ s s' : Press} {t t' : Decks}

/-! ## Single calls -/

/-- A call turns out well, or it raises and leaves behind what a failure leaves behind. -/
theorem ends_op {op : PressOp β} {Q : Except DeckError β → Press → Prop}
    (hok : ∀ d, Q (op.succeeded jsonb d s).1 (op.succeeded jsonb d s).2)
    (hraise : op.mayRaise s = true → ∀ d e, Q (.error e) (op.failed d s)) :
    (press jsonb).Ends Q (Prog.perform op) s := by
  refine ends_perform fun d _ ↦ ?_
  show Q (op.exec jsonb d s).1 (op.exec jsonb d s).2
  rw [PressOp.exec]
  split
  · split
    · rename_i h
      exact hraise h d _
    · exact hok d
  · exact hok d

/-- A statement in a transaction changes what the transaction sees, or nothing. -/
theorem ends_execute {statement : Statement} {Q : Except DeckError Unit → Press → Prop}
    (htx : s.tx = some t)
    (hok : ∀ now t', statement.run jsonb now t = .ok t' → Q (.ok ()) { s with tx := some t' })
    (hraise : ∀ e, Q (.error e) s) :
    (press jsonb).Ends Q (Prog.perform (.execute statement)) s := by
  refine ends_op (fun d ↦ ?_) fun _ d e ↦ hraise e
  show Q (s.execute jsonb d.now statement).1 (s.execute jsonb d.now statement).2
  rw [Press.execute, htx]
  dsimp only
  cases h : statement.run jsonb d.now t with
  | ok t' => exact hok d.now t' h
  | error e => exact hraise e

/-- The same, outside of a transaction. -/
theorem ends_autocommit {statement : Statement} {Q : Except DeckError Unit → Press → Prop}
    (htx : s.tx = none)
    (hok : ∀ now db', statement.run jsonb now s.db = .ok db' →
      Q (.ok ()) { s with db := db', tx := none })
    (hraise : ∀ e, Q (.error e) s) :
    (press jsonb).Ends Q (Prog.perform (.execute statement)) s := by
  refine ends_op (fun d ↦ ?_) fun _ d e ↦ hraise e
  show Q (s.execute jsonb d.now statement).1 (s.execute jsonb d.now statement).2
  rw [Press.execute, htx]
  dsimp only
  cases h : statement.run jsonb d.now s.db with
  | ok db' => exact hok d.now db' h
  | error e => exact hraise e

/-- Either the transaction ends as `p` does and is committed, or there is no transaction. -/
theorem ends_transaction {p : Publication Unit} {ready failed : Press → Prop}
    (hp : (press jsonb).Ends (Outcome (fun _ s' ↦ ready s') failed) p { s with tx := some s.db }) :
    (press jsonb).Ends
      (Outcome (fun _ s' ↦ ∃ s₁, ready s₁ ∧ s' = { s₁ with db := s₁.tx.getD s₁.db, tx := none })
        (fun s' ↦ s' = s ∨ ∃ s₁, (failed s₁ ∨ ready s₁) ∧ s' = { s₁ with tx := none }))
      (transaction p) s := by
  have hbegin : (press jsonb).Ends (Outcome (fun _ s' ↦ s' = { s with tx := some s.db }) (· = s))
      (Prog.perform .begin) s := ends_op (fun d ↦ rfl) fun _ d e ↦ rfl
  have hrollback (e : DeckError) {s₁ : Press} (h₁ : failed s₁) : (press jsonb).Ends
      (Outcome (fun _ s' ↦ ready s') fun s' ↦ ∃ s₁, failed s₁ ∧ s' = { s₁ with tx := none })
      (do Prog.perform .rollback; Prog.raise e : Publication Unit) s₁ := by
    refine Ends.andThen (R := fun _ s' ↦ s' = ({ s₁ with tx := none } : Press))
      (ends_op (fun d ↦ rfl) fun _ d e ↦ ⟨s₁, h₁, rfl⟩) fun _ s' hs' ↦ ?_
    exact ends_raise ⟨s₁, h₁, hs'⟩
  refine hbegin.bind (fun _ s' hs' ↦ ?_) fun _ s' hs' ↦ .inl hs'
  cases hs'
  have htried := hp.tryCatch (Q := Outcome (fun _ s' ↦ ready s')
      fun s' ↦ ∃ s₁, failed s₁ ∧ s' = { s₁ with tx := none })
    (fun _ _ h ↦ h) fun e s₁ h₁ ↦ hrollback e h₁
  refine htried.bind (fun _ s₁ h₁ ↦ ?_) fun e s' h ↦ ?_
  · exact ends_op (fun d ↦ ⟨s₁, h₁, rfl⟩) fun _ d e ↦ .inr ⟨s₁, .inr h₁, rfl⟩
  · obtain ⟨s₁, h₁, hs'⟩ := h
    exact .inr ⟨s₁, .inl h₁, hs'⟩

/-! ## What is tried -/

namespace Edition

theorem deckDir_ne_stagingDir (o : Edition) : o.deckDir ≠ o.stagingDir := nofun

end Edition

/-- The deck is published: it has its final status, its cards and their images. -/
structure Published (o : Edition) (s : Press) : Prop where
  deck : ∃ d ∈ s.db.decks, d.id = o.deckId
  status : ∀ d ∈ s.db.decks, d.id = o.deckId → d.status = o.final.status
  cards : ∀ card ∈ o.cards, card.row o.deckId ∈ s.db.cards
  images : ∃ files, s.dirs o.deckDir = some files ∧ ∀ card ∈ o.cards,
    ∃ filename, card.filename = .ok filename ∧ files filename = some card.imageBytes

/-- Nothing of the publication is left: no card and no directory, and the deck is not ready or live
unless it was so before and its row has not been touched. -/
structure Withdrawn (o : Edition) (s₀ s : Press) : Prop where
  deck : ∀ d ∈ s.db.decks, d.id = o.deckId → d.status = .ready ∨ d.status = .live →
    d ∈ s₀.db.decks
  cards : s.db.cards = s₀.db.cards
  staging : s.dirs o.stagingDir = none
  deckDir : s.dirs o.deckDir = s₀.dirs o.deckDir

/-- Nothing is in the tables, and a directory of the deck is there only if it was there before or
can be removed. -/
structure Revocable (o : Edition) (s₀ s : Press) : Prop where
  db : s.db = s₀.db
  deckDir : s.finalDirCreated = false ∧ s.dirs o.deckDir = s₀.dirs o.deckDir ∨
    s.finalDirCreated = true ∧ s₀.dirs o.deckDir = none

/-- Some images are in the staging directory, and nothing else has been done. -/
structure Staged (o : Edition) (s₀ : Press) (cards : List PrintedCard) (s : Press) : Prop where
  db : s.db = s₀.db
  absent : s₀.dirs o.deckDir = none
  deckDir : s.dirs o.deckDir = none
  created : s.finalDirCreated = false
  staging : ∃ files, s.dirs o.stagingDir = some files ∧ Holds files cards

/-- The directory of the deck is in place, and the rows are seen by the transaction. -/
structure Printed (o : Edition) (s₀ s : Press) (t : Decks) : Prop where
  db : s.db = s₀.db
  absent : s₀.dirs o.deckDir = none
  created : s.finalDirCreated = true
  images : ∃ files, s.dirs o.deckDir = some files ∧ Holds files o.cards
  tx : s.tx = some t
  deck : ∃ d ∈ t.decks, d.id = o.deckId
  cards : ∀ card ∈ o.cards, card.row o.deckId ∈ t.cards
  nodup : (o.cards.map PrintedCard.cardId).Nodup

/-- It does not matter whether there is a connection, or a transaction. -/
theorem Revocable.of_eq (h : Revocable o s₀ s) (hdb : s'.db = s.db) (hdirs : s'.dirs = s.dirs)
    (hcreated : s'.finalDirCreated = s.finalDirCreated) : Revocable o s₀ s' where
  db := hdb.trans h.db
  deckDir := by rw [hcreated, hdirs]; exact h.deckDir

theorem Staged.of_eq {cards : List PrintedCard} (h : Staged o s₀ cards s) (hdb : s'.db = s.db)
    (hdirs : s'.dirs = s.dirs) (hcreated : s'.finalDirCreated = s.finalDirCreated) :
    Staged o s₀ cards s' where
  db := hdb.trans h.db
  absent := h.absent
  deckDir := by rw [hdirs]; exact h.deckDir
  created := hcreated.trans h.created
  staging := by rw [hdirs]; exact h.staging

theorem Staged.revocable {cards : List PrintedCard} (h : Staged o s₀ cards s) :
    Revocable o s₀ s where
  db := h.db
  deckDir := .inl ⟨h.created, h.deckDir.trans h.absent.symm⟩

theorem Printed.revocable (h : Printed o s₀ s t) : Revocable o s₀ s where
  db := h.db
  deckDir := .inr ⟨h.created, h.absent⟩

/-- What happens in the staging directory does not show. -/
theorem Staged.setFiles {cards cards' : List PrintedCard} {files : Files}
    (h : Staged o s₀ cards s) (hfiles : Holds files cards') :
    Staged o s₀ cards' (s.setDir o.stagingDir (some files)) where
  db := h.db
  absent := h.absent
  deckDir := (s.setDir_of_ne o.deckDir_ne_stagingDir _).trans h.deckDir
  created := h.created
  staging := ⟨files, s.setDir_self .., hfiles⟩

theorem ends_stageImages (cards : List PrintedCard) {staged : List PrintedCard}
    (hs : Staged o s₀ staged s) (htx : s.tx = none) :
    (press jsonb).Ends
      (Outcome (fun _ s' ↦ Staged o s₀ (staged ++ cards) s' ∧ s'.tx = none)
        (fun s' ↦ Revocable o s₀ s' ∧ s'.tx = none))
      (stageImages o.stagingDir cards) s := by
  induction cards generalizing staged s with
  | nil => exact ends_pure ⟨by rwa [List.append_nil], htx⟩
  | cons card rest ih =>
    rw [stageImages]
    cases hname : card.filename with
    | error e => exact ends_raise ⟨hs.revocable, htx⟩
    | ok filename =>
      obtain ⟨files, hdir, hfiles⟩ := hs.staging
      have hput (bytes : Bytes) : s.putFile o.stagingDir filename bytes =
          s.setDir o.stagingDir (some (Function.update files filename (some bytes))) := by
        rw [Press.putFile, hdir]
      refine Ends.andThen (p := Prog.perform _)
        (R := fun _ s' ↦ Staged o s₀ (staged ++ [card]) s' ∧ s'.tx = none)
        (ends_op (fun d ↦ ?_) fun _ d e ↦ ?_) fun _ s' hs' ↦ ?_
      · simp only [PressOp.succeeded, hdir, Option.isSome_some, if_true, outcome_ok]
        rw [hput]
        exact ⟨hs.setFiles (hfiles.write hname), htx⟩
      · simp only [PressOp.failed, outcome_error]
        rw [hput]
        exact ⟨(hs.setFiles (holds_nil _)).revocable, htx⟩
      · have h := ih hs'.1 hs'.2
        rwa [List.append_assoc, List.singleton_append] at h

theorem ends_insertCards (cards : List PrintedCard) (htx : s.tx = some t) :
    (press jsonb).Ends
      (Outcome (fun _ s' ↦ ∃ t', s' = { s with tx := some t' } ∧
          Decks.insertCards (cards.map (·.row o.deckId)) t = .ok t')
        (fun s' ↦ ∃ t', s' = { s with tx := some t' }))
      (insertCards o.deckId cards) s := by
  have hself : s = { s with tx := some t } := by rw [← htx]
  induction cards generalizing s t with
  | nil => exact ends_pure ⟨t, hself, rfl⟩
  | cons card rest ih =>
    rw [insertCards]
    refine Ends.andThen (R := fun _ s' ↦ ∃ t₁, s' = { s with tx := some t₁ } ∧
        t.insertCard (card.row o.deckId) = .ok t₁)
      (ends_execute htx (fun _ t₁ h₁ ↦ ⟨t₁, rfl, h₁⟩) fun _ ↦ ⟨t, hself⟩) fun _ s' hs' ↦ ?_
    obtain ⟨t₁, rfl, h₁⟩ := hs'
    refine (ih (t := t₁) rfl rfl).post fun r s' h ↦ ?_
    cases r with
    | ok u =>
      obtain ⟨t', hs', ht'⟩ := h
      refine ⟨t', hs', ?_⟩
      rw [List.map_cons, Decks.insertCards, h₁]
      exact ht'
    | error e => exact h

theorem ends_openDeck (htx : s.tx = some t) :
    (press jsonb).Ends
      (Outcome (fun _ s' ↦ ∃ t', s' = { s with tx := some t' } ∧
          ∃ d ∈ t'.decks, d.id = o.deckId) (· = s))
      o.openDeck s := by
  rw [Edition.openDeck]
  split
  · refine Ends.andThen (R := fun status s' ↦ s' = s ∧
        status = (t.deck? o.deckId).map DeckRecord.status)
      (ends_op (fun d ↦ ⟨rfl, by rw [htx]; rfl⟩) fun _ d e ↦ rfl) fun status s' hs' ↦ ?_
    obtain ⟨rfl, rfl⟩ := hs'
    cases hdeck : t.deck? o.deckId with
    | none => exact ends_raise rfl
    | some d =>
      dsimp only [Option.map_some]
      split
      · exact ends_raise rfl
      · refine ends_execute htx (fun now t' h ↦ ⟨t', rfl, ?_⟩) fun _ ↦ rfl
        cases h
        have hid : d.id = o.deckId := by simpa using List.find?_some hdeck
        refine ⟨_, List.mem_map_of_mem (List.mem_of_find?_eq_some hdeck), ?_⟩
        rw [if_pos (by simpa using hid)]
        exact hid
  · refine ends_execute htx (fun now t' h ↦ ⟨t', rfl, ?_⟩) fun _ ↦ rfl
    rw [Statement.run, Decks.insertDeck, Raising.ite_error_eq_ok] at h
    obtain ⟨-, h⟩ := h
    cases h
    exact ⟨_, List.mem_append_right _ List.mem_cons_self, rfl⟩

/-- The final status is what the last statement gives to the row. -/
theorem status_of_finish {now : Time} {d : DeckRecord}
    (h : d ∈ (t.updateDecks (fun d ↦ d.id == o.deckId) (·.finished o.final now)).decks)
    (hid : d.id = o.deckId) : d.status = o.final.status := by
  obtain ⟨d', -, rfl⟩ := List.mem_map.mp h
  by_cases h' : d'.id = o.deckId
  · simp [h', DeckRecord.finished]
  · simp [h'] at hid

theorem ends_inTransaction (hs : Staged o s₀ o.cards s) (htx : s.tx = some t) :
    (press jsonb).Ends
      (Outcome (fun _ s' ↦ ∃ t, Printed o s₀ s' t ∧
          ∀ d ∈ t.decks, d.id = o.deckId → d.status = o.final.status) (Revocable o s₀))
      o.inTransaction s := by
  have hrev (t : Decks) : Revocable o s₀ { s with tx := some t } :=
    hs.revocable.of_eq rfl rfl rfl
  rw [Edition.inTransaction]
  refine (ends_openDeck htx).bind (fun _ s' h ↦ ?_) fun _ s' h ↦ h ▸ hs.revocable
  obtain ⟨t₁, rfl, hdeck⟩ := h
  refine (ends_insertCards o.cards (t := t₁) rfl).bind (fun _ s' h ↦ ?_) fun _ s' h ↦ ?_
  · obtain ⟨t₂, rfl, hcards⟩ := h
    obtain ⟨hdecks, hcards, hnodup, -⟩ := Decks.insertCards_eq_ok hcards
    rw [List.map_map] at hnodup
    obtain ⟨files, hdir, hfiles⟩ := hs.staging
    refine Ends.andThen (R := fun _ s' ↦ Printed o s₀ s' t₂) (ends_op (fun d ↦ ?_)
      fun _ d e ↦ hrev t₂) fun _ s' hs' ↦ ?_
    · exact {
        db := hs.db
        absent := hs.absent
        created := rfl
        images := ⟨files, by
          show ((s.setDir o.deckDir (s.dirs o.stagingDir)).setDir o.stagingDir none).dirs
            o.deckDir = some files
          rw [Press.setDir_of_ne _ o.deckDir_ne_stagingDir, Press.setDir_self]
          exact hdir, hfiles⟩
        tx := rfl
        deck := by rwa [hdecks]
        cards := fun card hcard ↦ by
          rw [hcards]
          exact List.mem_append_right _ (List.mem_map_of_mem hcard)
        nodup := hnodup }
    · refine ends_execute hs'.tx (fun now t' h ↦ ?_) fun e ↦ hs'.revocable
      cases h
      refine ⟨_, ⟨hs'.db, hs'.absent, hs'.created, hs'.images, rfl, ?_, hs'.cards, hs'.nodup⟩,
        fun d hd hid ↦ status_of_finish hd hid⟩
      obtain ⟨d, hd, hid⟩ := hs'.deck
      refine ⟨_, List.mem_map_of_mem hd, ?_⟩
      split
      · exact hid
      · exact hid
  · obtain ⟨t₂, rfl⟩ := h
    exact hrev t₂

/-- What is tried is published, or can be taken back. -/
theorem ends_attempt (htx : s₀.tx = none) (hcreated : s₀.finalDirCreated = false) :
    (press jsonb).Ends
      (Outcome (fun _ s' ↦ Published o s') fun s' ↦ Revocable o s₀ s' ∧ s'.tx = none)
      o.attempt s₀ := by
  have hrev : Revocable o s₀ s₀ := ⟨rfl, .inl ⟨hcreated, rfl⟩⟩
  rw [Edition.attempt]
  refine Ends.andThen (R := fun b s' ↦ s₀ = s' ∧ b = (s₀.dirs o.deckDir).isSome)
    (ends_op (fun d ↦ ⟨rfl, rfl⟩) fun _ d e ↦ ⟨hrev, htx⟩) fun b s' hs' ↦ ?_
  obtain ⟨rfl, rfl⟩ := hs'
  split
  · exact ends_raise ⟨hrev, htx⟩
  rename_i habsent
  rw [Option.not_isSome_iff_eq_none] at habsent
  have hdirs : Staged o s₀ [] (s₀.setDir o.stagingDir (some fun _ ↦ none)) := {
    db := rfl
    absent := habsent
    deckDir := (s₀.setDir_of_ne o.deckDir_ne_stagingDir _).trans habsent
    created := hcreated
    staging := ⟨_, s₀.setDir_self .., holds_nil _⟩ }
  refine Ends.andThen (p := Prog.perform _)
    (R := fun _ s' ↦ Staged o s₀ [] s' ∧ s'.tx = none) (ends_op (fun d ↦ ?_)
    fun _ d e ↦ ⟨hrev, htx⟩) fun _ s' hs' ↦ ?_
  · rw [PressOp.succeeded]
    split
    · exact ⟨hrev, htx⟩
    · exact ⟨hdirs, htx⟩
  refine Ends.andThen (ends_stageImages o.cards hs'.1 hs'.2) fun _ s' hs' ↦ ?_
  rw [List.nil_append] at hs'
  refine Ends.andThen (R := fun _ s' ↦ Staged o s₀ o.cards s' ∧ s'.tx = none)
    (ends_op (fun d ↦ ⟨hs'.1.of_eq rfl rfl rfl, hs'.2⟩) fun _ d e ↦ ⟨hs'.1.revocable, hs'.2⟩)
      fun _ s' hs' ↦ ?_
  refine (ends_transaction (ends_inTransaction (hs'.1.of_eq rfl rfl rfl) rfl)).post fun r s₁ h ↦ ?_
  cases r with
  | ok u =>
    obtain ⟨s₁, ⟨t, hp, hstatus⟩, rfl⟩ := h
    rw [hp.tx]
    obtain ⟨files, hdir, hfiles⟩ := hp.images
    exact ⟨hp.deck, hstatus, hp.cards, files, hdir, fun card hcard ↦ hfiles.image hp.nodup hcard⟩
  | error e =>
    rcases h with rfl | ⟨s₁, h | ⟨t, hp, -⟩, rfl⟩
    · exact ⟨hs'.1.revocable, hs'.2⟩
    · exact ⟨h.of_eq rfl rfl rfl, rfl⟩
    · exact ⟨hp.revocable.of_eq rfl rfl rfl, rfl⟩

/-! ## What is done about an exception -/

/-- Making the row of a deck fail makes no deck ready or live. -/
theorem Withdrawn.setDb {db : Decks} (h : Withdrawn o s₀ s) (hcards : db.cards = s.db.cards)
    (hdecks : ∀ d ∈ db.decks, d.status ≠ .failed → d ∈ s.db.decks) :
    Withdrawn o s₀ { s with db := db, tx := none } where
  deck d hd hid hstatus := by
    refine h.deck d (hdecks d hd fun hf ↦ ?_) hid hstatus
    rw [hf] at hstatus
    simp at hstatus
  cards := hcards.trans h.cards
  staging := h.staging
  deckDir := h.deckDir

theorem mem_updateDecks_failed {p : DeckRecord → Bool} {reason : Text} {d : DeckRecord}
    (h : d ∈ (t.updateDecks p (·.failed reason)).decks) (hstatus : d.status ≠ .failed) :
    d ∈ t.decks := by
  obtain ⟨d', hd', rfl⟩ := List.mem_map.mp h
  by_cases hp : p d'
  · simp [hp, DeckRecord.failed] at hstatus
  · simpa [hp] using hd'

theorem mem_upsertFailed {doc : Json} {reason : Text} {d : DeckRecord}
    (h : d ∈ (t.upsertFailed jsonb o.deckId doc reason).decks) (hstatus : d.status ≠ .failed) :
    d ∈ t.decks := by
  rw [Decks.upsertFailed] at h
  split at h
  · exact mem_updateDecks_failed h hstatus
  · rcases List.mem_append.mp h with h | h
    · exact h
    · rw [List.mem_singleton] at h
      subst h
      exact absurd rfl hstatus

theorem cards_upsertFailed {doc : Json} {reason : Text} :
    (t.upsertFailed jsonb o.deckId doc reason).cards = t.cards := by
  rw [Decks.upsertFailed]
  split <;> rfl

/-- A statement that only makes rows fail. -/
def OnlyFails (jsonb : Json.Store) (statement : Statement) : Prop :=
  ∀ now db db', statement.run jsonb now db = .ok db' →
    db'.cards = db.cards ∧ ∀ d ∈ db'.decks, d.status ≠ .failed → d ∈ db.decks

theorem onlyFails_failGenerating (deckId : Uuid) (reason : Text) :
    OnlyFails jsonb (.failGenerating deckId reason) := by
  intro now db db' h
  cases h
  exact ⟨rfl, fun d hd ↦ mem_updateDecks_failed hd⟩

theorem onlyFails_upsertFailed (doc : Json) (reason : Text) :
    OnlyFails jsonb (.upsertFailed o.deckId doc reason) := by
  intro now db db' h
  cases h
  exact ⟨cards_upsertFailed, fun d hd ↦ mem_upsertFailed hd⟩

theorem ends_fail {statement : Statement} (hst : OnlyFails jsonb statement)
    (h : Withdrawn o s₀ s) (htx : s.tx = none) :
    (press jsonb).Ends (fun _ s' ↦ Withdrawn o s₀ s') (Prog.perform (.execute statement)) s :=
  ends_autocommit htx
    (fun now db' hrun ↦ h.setDb (hst now s.db db' hrun).1 (hst now s.db db' hrun).2)
    fun _ ↦ h

theorem ends_ignoring {p : Publication Unit} {P : Press → Prop}
    (h : (press jsonb).Ends (fun _ s' ↦ P s') p s) :
    (press jsonb).Ends (fun _ s' ↦ P s') (Edition.ignoring p) s :=
  h.tryCatch (fun _ _ h ↦ h) fun _ _ h ↦ ends_pure h

theorem ends_markFailed (reason : Text) (h : Withdrawn o s₀ s) (htx : s.tx = none) :
    (press jsonb).Ends (fun _ s' ↦ Withdrawn o s₀ s') (o.markFailed reason) s := by
  refine Ends.bind (M := fun _ s' ↦ Withdrawn o s₀ s' ∧ s'.tx = none)
    (ends_op (fun d ↦ ⟨h, htx⟩) fun _ d e ↦ ⟨h, htx⟩) (fun _ s' hs' ↦ ?_) fun _ s' hs' ↦ hs'.1
  refine (ends_fail (onlyFails_failGenerating _ _) hs'.1 hs'.2).ensuring fun r s₁ d h₁ _ ↦ ?_
  have hself : ((press jsonb).exec d .await s₁).2 = s₁ := by
    show (PressOp.await.exec jsonb d s₁).2 = s₁
    rw [PressOp.exec]
    split <;> rfl
  rw [hself]
  exact ⟨fun _ _ ↦ h₁, fun _ _ ↦ h₁⟩

theorem ends_recordFailure (reason : Text) (connected : Bool) (h : Withdrawn o s₀ s)
    (htx : s.tx = none) :
    (press jsonb).Ends (fun _ s' ↦ Withdrawn o s₀ s') (o.recordFailure reason connected) s := by
  rw [Edition.recordFailure]
  split
  · refine ends_ignoring (ends_fail ?_ h htx)
    split
    · exact onlyFails_failGenerating _ _
    · exact onlyFails_upsertFailed _ _
  · split
    · exact ends_ignoring (ends_markFailed reason h htx)
    · exact ends_pure h

/-- What can be taken back is taken back. -/
theorem ends_cleanUp (reason : Text) (h : Revocable o s₀ s) (htx : s.tx = none) :
    (press jsonb).Ends (fun _ s' ↦ Withdrawn o s₀ s') (o.cleanUp reason) s := by
  have hstaging : (s.setDir o.stagingDir none).dirs o.deckDir = s.dirs o.deckDir :=
    s.setDir_of_ne o.deckDir_ne_stagingDir _
  rw [Edition.cleanUp]
  have hrmtree : (press jsonb).Ends
      (Outcome (fun _ s' ↦ s' = s.setDir o.stagingDir none) fun _ ↦ False)
      (Prog.perform (.rmtree o.stagingDir)) s := ends_op (fun d ↦ rfl) fun h ↦ by cases h
  refine hrmtree.bind (fun _ s' hs' ↦ ?_) fun _ _ h ↦ h.elim
  subst hs'
  have hlocals : (press jsonb).Ends
      (Outcome (fun b s' ↦ b = (s.connected, s.finalDirCreated) ∧
        s' = s.setDir o.stagingDir none) fun _ ↦ False)
      (Prog.perform .locals) (s.setDir o.stagingDir none) :=
    ends_op (fun d ↦ ⟨rfl, rfl⟩) fun h ↦ by cases h
  refine hlocals.bind (fun b s' hs' ↦ ?_) fun _ _ h ↦ h.elim
  obtain ⟨rfl, rfl⟩ := hs'
  dsimp only
  split
  · rename_i hcreated
    have hnone : s₀.dirs o.deckDir = none := by simpa [hcreated] using h.deckDir
    have hwithdrawn : Withdrawn o s₀ ((s.setDir o.stagingDir none).setDir o.deckDir none) := {
      deck := fun d hd _ _ ↦ h.db ▸ hd
      cards := congrArg Decks.cards h.db
      staging := (Press.setDir_of_ne _ o.deckDir_ne_stagingDir.symm _).trans (s.setDir_self ..)
      deckDir := (Press.setDir_self ..).trans hnone.symm }
    have hrmtree : (press jsonb).Ends
        (Outcome (fun _ s' ↦ s' = (s.setDir o.stagingDir none).setDir o.deckDir none) fun _ ↦ False)
        (Prog.perform (.rmtree o.deckDir)) (s.setDir o.stagingDir none) :=
      ends_op (fun d ↦ rfl) fun h ↦ by cases h
    refine hrmtree.bind (fun _ s' hs' ↦ ?_) fun _ _ h ↦ h.elim
    subst hs'
    exact ends_recordFailure reason _ hwithdrawn htx
  · rename_i hcreated
    have hsame : s.dirs o.deckDir = s₀.dirs o.deckDir := by simpa [hcreated] using h.deckDir
    have hwithdrawn : Withdrawn o s₀ (s.setDir o.stagingDir none) := {
      deck := fun d hd _ _ ↦ h.db ▸ hd
      cards := congrArg Decks.cards h.db
      staging := s.setDir_self ..
      deckDir := hstaging.trans hsame }
    exact ends_recordFailure reason _ hwithdrawn htx

/-- Closing the connection changes nothing, whether it raises or not. -/
theorem exec_close (d : PressDraw) : ((press jsonb).exec d .close s).2 = s := by
  show (PressOp.close.exec jsonb d s).2 = s
  rw [PressOp.exec]
  split
  · split <;> rfl
  · rfl

/-- **A publication is atomic**: whatever raises, the deck is published, or nothing of it is left
and it is ready or live only if it was so before. -/
theorem publish_atomic {r : Except DeckError Unit} (hinit : (press jsonb).init s)
    (h : (press jsonb).Alone s ((press jsonb).body o) r s') :
    (r = .ok () → Published o s') ∧ ∀ e, r = .error e → Published o s' ∨ Withdrawn o s s' := by
  have htried : (press jsonb).Ends
      (Outcome (fun _ s' ↦ Published o s') fun s' ↦ Withdrawn o s s')
      (o.attempt.tryCatch fun e ↦ do o.cleanUp (Edition.reason e); Prog.raise e) s := by
    refine (ends_attempt hinit.1 hinit.2.2).tryCatch (fun _ _ h ↦ h) fun e s₁ h₁ ↦ ?_
    exact (ends_cleanUp _ h₁.1 h₁.2).bind (fun _ s₂ h₂ ↦ ends_raise h₂) fun _ s₂ h₂ ↦ h₂
  have hpublish : (press jsonb).Ends
      (Outcome (fun _ s' ↦ Published o s') fun s' ↦ Published o s' ∨ Withdrawn o s s')
      o.publish s := by
    refine htried.ensuring fun r s₁ d h₁ _ ↦ ?_
    rw [exec_close]
    cases r with
    | ok u => exact ⟨fun _ _ ↦ h₁, fun _ _ ↦ .inl h₁⟩
    | error e => exact ⟨fun _ _ ↦ .inr h₁, fun _ _ ↦ .inr h₁⟩
  have hend := hpublish.ensures.sound h
  constructor
  · rintro rfl
    exact hend
  · rintro e rfl
    exact hend

/-! ## Two runs -/

/-- A call that is handed nothing and does not raise. -/
def calm : PressDraw := { now := 0, raises := none }

/-- A new deck of one card, and a commit that raises after the directory has been renamed. -/
theorem publish_atomic_commit : ∃ (o : Edition) (s s' : Press),
    (press .verbatim).playAlone
      (.replicate 9 calm ++ { calm with raises := some .uniqueViolation } ::
      .replicate 5 calm) o.publish s = some s' ∧ s'.dirs o.deckDir = none ∧
    (Published o s' ∨ Withdrawn o s s') := by
  let o : Edition := ⟨1, false, .null, [⟨2, none, [0xff, 0xd8, 0xff], [], true⟩], .live, 3⟩
  let s : Press := ⟨⟨[], []⟩, none, fun _ ↦ none, false, false⟩
  have hplay : ∃ s', (press .verbatim).playAlone (.replicate 9 calm ++
      { calm with raises := some .uniqueViolation } :: .replicate 5 calm) o.publish s = some s' ∧
      s'.dirs o.deckDir = none := ⟨_, rfl, rfl⟩
  obtain ⟨s', hs', hdir⟩ := hplay
  obtain ⟨r, hr⟩ := alone_of_playAlone hs'
  have hatomic := publish_atomic (s := s) ⟨rfl, rfl, rfl⟩ hr
  refine ⟨o, s, s', hs', hdir, ?_⟩
  cases r with
  | ok u => exact .inl (hatomic.1 rfl)
  | error e => exact hatomic.2 e rfl

/-- A deck that is ready is not published again: the call raises, and the deck is still ready. -/
theorem ready_deck_kept : ¬∀ (jsonb : Json.Store) (o : Edition) (s s' : Press) (e : DeckError),
    (press jsonb).init s → (press jsonb).Alone s ((press jsonb).body o) (.error e) s' →
      Published o s' ∨
        (∀ d ∈ s'.db.decks, d.id = o.deckId → d.status ≠ .ready ∧ d.status ≠ .live) ∧
        (∀ card ∈ o.cards, card.row o.deckId ∉ s'.db.cards) ∧ s'.dirs o.stagingDir = none ∧
        (s.dirs o.deckDir = none → s'.dirs o.deckDir = none) := by
  intro h
  let ready : DeckRecord := ⟨1, .ready, .null, none, none⟩
  let o : Edition := ⟨1, true, .null, [], .live, 2⟩
  let s : Press := ⟨⟨[ready], []⟩, none, fun _ ↦ none, false, false⟩
  have hrun : ∃ s', (press .verbatim).Alone s o.publish (.error (.notGenerating 1 .ready)) s' ∧
      s'.db.decks = [ready] := by
    refine ⟨_, .call (d := calm) rfl <| .call (d := calm) rfl <| .call (d := calm) rfl <|
      .call (d := calm) rfl <| .call (d := calm) rfl <| .call (d := calm) rfl <|
      .call (d := calm) rfl <| .call (d := calm) rfl <| .call (d := calm) rfl <|
      .call (d := calm) rfl <| .done _ _, rfl⟩
  obtain ⟨s', hs', hdecks⟩ := hrun
  have hmem : ready ∈ s'.db.decks := by simp [hdecks]
  rcases h .verbatim o s s' _ ⟨rfl, rfl, rfl⟩ hs' with hpub | ⟨hdeck, -⟩
  · exact absurd (hpub.status ready hmem rfl) (by decide)
  · exact (hdeck ready hmem rfl).1 rfl

end PostgresPublisher
end Neva.Deckgen
