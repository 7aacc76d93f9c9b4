import Docket.Proofs.Edits

/-!
The copy that the steps work on mirrors what is stored of the document: the row has its
fields and the stored entries are its own.  Entries that a rule has added are the
exception: they have their names in the store, but the copy has them without names.
-/

namespace Docket

open Docket.Calendar (Instant)

/-! The row of a document and a copy of it. -/

/-- A row has the fields of a document.  Its date reads as that of the document, or is
written from it; when it was last changed is the affair of the row alone. -/
structure DocumentRow.Shows (r : DocumentRow) (d : Document) : Prop where
  fields : r = { DocumentRow.ofDocument d with
    date := r.date, createdAt := r.createdAt, updatedAt := r.updatedAt }
  date : readMoment 9 r.date = .ok d.date ∨ r.date = d.date.toMicrosText
  createdAt : readMoment 12 r.createdAt = .ok d.createdAt

/-- What no step before the last changes of a copy. -/
structure Document.SameOrigin (d d' : Document) : Prop where
  id : d'.id = d.id
  userId : d'.userId = d.userId
  createdAt : d'.createdAt = d.createdAt
  updatedAt : d'.updatedAt = d.updatedAt
  tags : d'.tags = d.tags

theorem Document.SameOrigin.refl (d : Document) : d.SameOrigin d := ⟨rfl, rfl, rfl, rfl, rfl⟩

theorem Document.SameOrigin.trans {d d' d'' : Document} (h : d.SameOrigin d')
    (h' : d'.SameOrigin d'') : d.SameOrigin d'' :=
  ⟨h'.id.trans h.id, h'.userId.trans h.userId, h'.createdAt.trans h.createdAt,
    h'.updatedAt.trans h.updatedAt, h'.tags.trans h.tags⟩

theorem DocumentRow.shows_of_read {r : DocumentRow} {d : Document} (h : r.read = .ok d) :
    r.Shows d ∧ readMoment 13 r.updatedAt = .ok d.updatedAt ∧ d.metadata = none ∧
      d.tags = none := by
  have hstatus := (Pass.status_of_read h).2
  obtain ⟨date, hdate, h⟩ := exists_of_bind_ok h
  obtain ⟨status, -, h⟩ := exists_of_bind_ok h
  obtain ⟨createdAt, hcreated, h⟩ := exists_of_bind_ok h
  obtain ⟨updatedAt, hupdated, h⟩ := exists_of_bind_ok h
  cases h
  refine ⟨⟨?_, .inl hdate, hcreated⟩, hupdated, rfl, rfl⟩
  change status.name = r.status at hstatus
  cases r
  simp only [ofDocument, hstatus]

/-- A row shows the document whose fields were stored in it. -/
theorem DocumentRow.Shows.withFieldsOf {r : DocumentRow} {d d' : Document} (h : r.Shows d)
    (horigin : d.SameOrigin d') (now : Instant) : (r.withFieldsOf d' now).Shows d' := by
  refine ⟨?_, .inr rfl, h.createdAt.trans (by rw [horigin.createdAt])⟩
  have hid : r.id = d'.id := by
    rw [h.fields, horigin.id]
    rfl
  have huser : r.userId = d'.userId := by
    rw [h.fields, horigin.userId]
    rfl
  simp only [DocumentRow.withFieldsOf, hid, huser]
  rfl

theorem DocumentRow.Shows.withContent {r : DocumentRow} {d : Document} (h : r.Shows d)
    (text : String) (now : Instant) :
    ({ r with content := text, updatedAt := now.toMicrosText } : DocumentRow).Shows
      { d with content := text } := by
  refine ⟨?_, h.date, h.createdAt⟩
  have hfields := h.fields
  cases r
  simp only [DocumentRow.ofDocument, DocumentRow.mk.injEq] at hfields ⊢
  simp only [hfields, and_self]

/-! Names of entries. -/

/-- Ids tell keys apart, and values, and no entry is stored twice. -/
structure Store.Distinct (st : Store) : Prop where
  keys : (st.keys.map (·.id)).Nodup
  values : (st.values.map (·.id)).Nodup
  entries : st.entries.Nodup

/-- Stores that differ in documents, jobs and entries at most. -/
def Store.SameVocabulary (base st : Store) : Prop :=
  ∃ documents jobs entries,
    st = { base with documents := documents, jobs := jobs, entries := entries }

/-- The entries of a document as they are stored. -/
def Store.entryRows (st : Store) (id : String) : List EntryRow :=
  st.entries.filter (·.documentId = id)

/-- How an entry of a document is stored. -/
def Entry.row (id : String) (e : Entry) : EntryRow := ⟨id, e.keyId, e.valueId⟩

/-- An entry with the names that its key and its value have in the store. -/
def Store.Names (st : Store) (e : Entry) : Prop := ∀ id, st.nameEntry? (e.row id) = some e

theorem Store.nameEntry?_of_find? {st : Store} {r : EntryRow} {k : KeyRow} {v : ValueRow}
    (hk : st.keys.find? (·.id = r.keyId) = some k)
    (hv : st.values.find? (·.id = r.valueId) = some v) :
    st.nameEntry? r = some ⟨k.id, k.key, v.id, v.value⟩ := by
  unfold nameEntry?
  rw [hk, hv]
  rfl

theorem Store.nameEntry?_eq_some {st : Store} {r : EntryRow} {e : Entry}
    (h : st.nameEntry? r = some e) :
    e.keyId = r.keyId ∧ e.valueId = r.valueId ∧ st.Names e := by
  unfold nameEntry? at h
  obtain ⟨k, hk, h⟩ := Option.bind_eq_some_iff.mp h
  obtain ⟨v, hv, h⟩ := Option.bind_eq_some_iff.mp h
  cases h
  have hkey : k.id = r.keyId := by simpa using List.find?_some hk
  have hvalue : v.id = r.valueId := by simpa using List.find?_some hv
  rw [← hkey] at hk
  rw [← hvalue] at hv
  exact ⟨hkey, hvalue, fun id => nameEntry?_of_find? hk hv⟩

theorem Store.ids_of_named {st : Store} {r : EntryRow} {e : Entry}
    (h : st.nameEntry? r = some e) : e.ids = (r.keyId, r.valueId) :=
  Prod.ext (nameEntry?_eq_some h).1 (nameEntry?_eq_some h).2.1

theorem find?_eq_some_of_nodup {α β : Type} [DecidableEq β] {key : α → β} {as : List α}
    {a : α} (hnodup : (as.map key).Nodup) (ha : a ∈ as) :
    as.find? (fun b => key b = key a) = some a := by
  have hsome : (as.find? fun b => key b = key a).isSome := by
    rw [List.find?_isSome]
    exact ⟨a, ha, by simp⟩
  obtain ⟨b, hb⟩ := Option.isSome_iff_exists.mp hsome
  have hkey : key b = key a := by simpa using List.find?_some hb
  rw [hb, List.inj_on_of_nodup_map hnodup (List.mem_of_find?_eq_some hb) ha hkey]

theorem mem_of_mapM {ε α β : Type} {f : α → Except ε β} {as : List α} {bs : List β}
    (h : as.mapM f = .ok bs) {b : β} (hb : b ∈ bs) : ∃ a ∈ as, f a = .ok b := by
  have hall := Store.forall₂_of_mapM h
  clear h
  induction hall with
  | nil => cases hb
  | cons hab _ ih =>
      rcases List.mem_cons.mp hb with rfl | hb
      · exact ⟨_, List.mem_cons_self, hab⟩
      · obtain ⟨a, ha, hok⟩ := ih hb
        exact ⟨a, List.mem_cons_of_mem _ ha, hok⟩

/-- What is attached automatically has the names that it has in the store. -/
theorem Store.names_of_autoMatchValues {st : Store} {userId : Int}
    {values : List AutoMatchValue} (hdistinct : st.Distinct)
    (h : st.autoMatchValues userId = .ok values) : ∀ v ∈ values, st.Names v.entry := by
  intro v hv id
  obtain ⟨⟨k, r⟩, hrow, hread⟩ := mem_of_mapM h hv
  obtain ⟨matchType, -, hread⟩ := exists_of_bind_ok hread
  cases hread
  have hnamed := List.mem_of_mem_filter ((List.mergeSort_perm _ _).mem_iff.mp hrow)
  obtain ⟨r', hr, hkr⟩ := List.mem_filterMap.mp hnamed
  obtain ⟨k', hk, heq⟩ := Option.map_eq_some_iff.mp hkr
  cases heq
  have hkey : st.keys.find? (·.id = k.id) = some k :=
    find?_eq_some_of_nodup hdistinct.keys (List.mem_of_find?_eq_some hk)
  have hvalue : st.values.find? (·.id = r.id) = some r :=
    find?_eq_some_of_nodup hdistinct.values hr
  exact nameEntry?_of_find? hkey hvalue

theorem Store.documentEntries_perm (st : Store) (id : String) :
    (st.documentEntries id).Perm ((st.entryRows id).filterMap st.nameEntry?) :=
  (List.mergeSort_perm _ _).trans ((List.mergeSort_perm _ _).filterMap _)

theorem Store.nodup_documentEntries {st : Store} {id : String}
    (hrows : (st.entryRows id).Nodup) : ((st.documentEntries id).map Entry.ids).Nodup := by
  apply ((st.documentEntries_perm id).map Entry.ids).nodup_iff.mpr
  rw [List.Nodup, List.pairwise_map, List.pairwise_filterMap]
  refine List.Pairwise.imp_of_mem ?_ hrows
  intro a b ha hb hne e he e' he' hids
  apply hne
  rw [ids_of_named he, ids_of_named he', Prod.mk.injEq] at hids
  have ha : a.documentId = id := by simpa using (List.mem_filter.mp ha).2
  have hb : b.documentId = id := by simpa using (List.mem_filter.mp hb).2
  cases a
  cases b
  simp_all

/-! The entries of a copy. -/

theorem Document.nodup_ids_addEntry {d : Document} (e : Entry)
    (h : (d.entries.map Entry.ids).Nodup) : ((d.addEntry e).entries.map Entry.ids).Nodup := by
  rw [Document.entries_addEntry]
  by_cases hthere : d.hasEntry e = true
  · rwa [if_pos hthere]
  · rw [if_neg hthere, List.map_append, List.nodup_append]
    refine ⟨h, by simp, ?_⟩
    intro p hp q hq heq
    obtain ⟨e', he', rfl⟩ := List.mem_map.mp hp
    obtain rfl : q = e.ids := by simpa using hq
    apply hthere
    simp only [Document.hasEntry, List.any_eq_true, decide_eq_true_eq]
    exact ⟨e', he', heq⟩

theorem Document.nodup_ids_removeEntries {d : Document} (keyId valueId : Int)
    (h : (d.entries.map Entry.ids).Nodup) :
    ((d.removeEntries keyId valueId).entries.map Entry.ids).Nodup := by
  rw [Document.entries_removeEntries]
  exact h.sublist (List.filter_sublist.map _)

/-- Entries of a copy: no two have the same ids, and each has the names that it has in the
store, or it was added without names. -/
structure Attached (base : Store) (Added : Int × Int → Prop) (entries : List Entry) : Prop where
  nodup : (entries.map Entry.ids).Nodup
  named : ∀ e ∈ entries, base.Names e ∨ Added e.ids ∧ e.key = "" ∧ e.value = ""

section

variable {base : Store} {Added : Int × Int → Prop} {d : Document}

theorem Attached.addEntry {e : Entry} (h : Attached base Added d.entries)
    (he : base.Names e ∨ Added e.ids ∧ e.key = "" ∧ e.value = "") :
    Attached base Added (d.addEntry e).entries := by
  refine ⟨Document.nodup_ids_addEntry e h.nodup, fun e' he' => ?_⟩
  rw [Document.entries_addEntry] at he'
  split at he'
  · exact h.named e' he'
  · rcases List.mem_append.mp he' with he' | he'
    · exact h.named e' he'
    · rwa [List.mem_singleton.mp he']

theorem Attached.removeEntries (keyId valueId : Int) (h : Attached base Added d.entries) :
    Attached base Added (d.removeEntries keyId valueId).entries := by
  refine ⟨Document.nodup_ids_removeEntries keyId valueId h.nodup, fun e he => ?_⟩
  rw [Document.entries_removeEntries] at he
  exact h.named e (List.mem_filter.mp he).1

/-- No action is other than the known one of its kind. -/
def Registry.ActsBuiltin (r : Registry) : Prop :=
  ∀ kind f, r.action kind = some f → f = Action.apply

theorem Registry.ActsBuiltin.apply_ok {r : Registry} (hr : r.ActsBuiltin) {a : Action}
    {d d' : Document} (h : r.apply a d = .ok d') : a.apply d = .ok d' := by
  unfold Registry.apply at h
  split at h
  · next f hf => rwa [← hr _ _ hf]
  · cases h

theorem Document.sameOrigin_addEntry (d : Document) (e : Entry) :
    d.SameOrigin (d.addEntry e) := by
  unfold Document.addEntry
  split
  · exact .refl d
  · exact ⟨rfl, rfl, rfl, rfl, rfl⟩

/-- An action leaves the entries as they are, or it adds one without names, or it removes
some. -/
theorem Action.apply_cases {a : Action} {d d' : Document} (h : a.apply d = .ok d') :
    d.SameOrigin d' ∧ (d'.metadata = d.metadata ∨
      (∃ k v, a.kind = .addEntry ∧ a.requireKeyValue = .ok (k, v) ∧
        d' = d.addEntry { keyId := k, valueId := v }) ∨
      ∃ k v, d' = d.removeEntries k v) := by
  unfold Action.apply at h
  split at h
  · cases h
    exact ⟨⟨rfl, rfl, rfl, rfl, rfl⟩, .inl rfl⟩
  · cases h
    exact ⟨⟨rfl, rfl, rfl, rfl, rfl⟩, .inl rfl⟩
  · cases h
    exact ⟨⟨rfl, rfl, rfl, rfl, rfl⟩, .inl rfl⟩
  · cases h
    exact ⟨⟨rfl, rfl, rfl, rfl, rfl⟩, .inl rfl⟩
  · obtain ⟨date, -, h⟩ := exists_of_bind_ok h
    cases h
    exact ⟨⟨rfl, rfl, rfl, rfl, rfl⟩, .inl rfl⟩
  · next hkind =>
      obtain ⟨⟨k, v⟩, hids, h⟩ := exists_of_bind_ok h
      cases h
      exact ⟨d.sameOrigin_addEntry _, .inr (.inl ⟨k, v, hkind, hids, rfl⟩)⟩
  · obtain ⟨⟨k, v⟩, -, h⟩ := exists_of_bind_ok h
    cases h
    exact ⟨⟨rfl, rfl, rfl, rfl, rfl⟩, .inr (.inr ⟨k, v, rfl⟩)⟩

/-- An active rule of a user has an enabled action that adds an entry with some ids. -/
def Store.RuleAdds (st : Store) (userId : Int) (ids : Int × Int) : Prop :=
  ∃ rules, st.activeRules userId = .ok rules ∧ ∃ rule ∈ rules, ∃ a ∈ rule.actions,
    a.enabled = true ∧ a.kind = .addEntry ∧ a.requireKeyValue = .ok ids

/-- A copy of a document whose entries are loaded. -/
structure Loaded (base : Store) (Added : Int × Int → Prop) (origin d : Document) : Prop where
  same : origin.SameOrigin d
  loaded : d.metadata = some d.entries
  attached : Attached base Added d.entries

theorem Loaded.addEntry {origin : Document} {e : Entry} (h : Loaded base Added origin d)
    (he : base.Names e ∨ Added e.ids ∧ e.key = "" ∧ e.value = "") :
    Loaded base Added origin (d.addEntry e) := by
  refine ⟨h.same.trans (d.sameOrigin_addEntry e), ?_, h.attached.addEntry he⟩
  unfold Document.addEntry
  split
  · exact h.loaded
  · rfl

theorem Loaded.action {r : Registry} (hr : r.ActsBuiltin) {origin d' : Document} {a : Action}
    (hadds : ∀ ids, a.kind = .addEntry → a.requireKeyValue = .ok ids → Added ids)
    (h : Loaded base Added origin d) (happly : r.apply a d = .ok d') :
    Loaded base Added origin d' := by
  obtain ⟨horigin, hsame | ⟨k, v, hkind, hids, rfl⟩ | ⟨k, v, rfl⟩⟩ :=
    Action.apply_cases (hr.apply_ok happly)
  · have hentries : d'.entries = d.entries := by
      unfold Document.entries
      rw [hsame]
    exact ⟨h.same.trans horigin, by rw [hsame, hentries, h.loaded], hentries ▸ h.attached⟩
  · exact h.addEntry (.inr ⟨hadds _ hkind hids, rfl, rfl⟩)
  · refine ⟨h.same.trans horigin, ?_, h.attached.removeEntries k v⟩
    unfold Document.removeEntries Document.entries
    rw [h.loaded]
    rfl

/-- Values found in a copy, and the rules of its owner, leave it loaded. -/
theorem Loaded.ruled {r : Registry} (hr : r.ActsBuiltin) (hdistinct : base.Distinct)
    {entries : List Entry} {values : List AutoMatchValue} {rules : List Rule}
    (hentries : Attached base Added entries)
    (hvalues : base.autoMatchValues d.userId = .ok values)
    (hrules : base.activeRules d.userId = .ok rules)
    (hadds : ∀ ids, base.RuleAdds d.userId ids → Added ids) :
    Loaded base Added d (d.ruled r entries values rules) := by
  have hhydrated : Loaded base Added d { d with metadata := some entries } :=
    ⟨⟨rfl, rfl, rfl, rfl, rfl⟩, rfl, hentries⟩
  have hnames := Store.names_of_autoMatchValues hdistinct hvalues
  have hmatched := Document.autoMatch_induction
    (fun v hv _ h => Loaded.addEntry h (.inl (hnames v hv))) hhydrated
  refine Handler.applyRules_induction ?_ _ hmatched
  intro rule hrule a ha henabled d₁ d₂ hd₁ happly
  refine hd₁.action hr (fun ids hkind hids => ?_) happly
  exact hadds ids ⟨rules, hrules, rule, hrule, a, ha, henabled, hkind, hids⟩

end

/-! The copy mirrors what is stored. -/

theorem eraseDups_of_nodup {α : Type} [BEq α] [LawfulBEq α] {as : List α} (h : as.Nodup) :
    as.eraseDups = as := by
  induction as with
  | nil => rfl
  | cons a rest ih =>
      obtain ⟨ha, hrest⟩ := List.nodup_cons.mp h
      have hothers : rest.filter (fun b => !b == a) = rest := by
        apply List.filter_eq_self.mpr
        intro b hb
        simpa using fun heq : b = a => ha (heq ▸ hb)
      rw [List.eraseDups_cons, hothers, ih hrest]

/-- Where a document was stored with its entries, their keys and values are stored, and
they have replaced the entries that it had. -/
theorem Store.updateWithEntries_true {st st' : Store} {d : Document}
    {entries : List (Int × Int)} {now : Instant}
    (h : st.updateWithEntries d entries now = .ok (true, st')) :
    (∀ p ∈ entries, st.hasKey p.1 = true ∧ st.hasValue p.2 = true) ∧
      st' = { (st.updateDocument d now).2 with
        entries := st.entries.filter (·.documentId ≠ d.id) ++
          entries.eraseDups.map fun p => ⟨d.id, p.1, p.2⟩ } := by
  unfold updateWithEntries at h
  split at h
  · cases h
  · next updated hupdated =>
      have heq : updated = (st.updateDocument d now).2 := by rw [hupdated]
      subst heq
      cases hreplace : (st.updateDocument d now).2.replaceEntries d.id entries with
      | error e =>
          rw [hreplace] at h
          cases h
      | ok replaced =>
          rw [hreplace] at h
          cases h
          obtain ⟨u, hrequire, hreplaced⟩ := exists_of_bind_ok hreplace
          cases hreplaced
          refine ⟨?_, rfl⟩
          unfold require at hrequire
          split at hrequire
          · next hall =>
              intro p hp
              have hp := List.all_eq_true.mp hall p hp
              simp only [Bool.and_eq_true] at hp
              exact ⟨hp.1.2, hp.2⟩
          · cases hrequire

/-- What is stored of a document while its copy is worked on, and the copy. -/
structure Mirrors (base : Store) (Added : Int × Int → Prop) (origin d : Document)
    (st : Store) : Prop where
  same : origin.SameOrigin d
  vocabulary : base.SameVocabulary st
  row : ∃ row, st.documentRow? origin.id = some row ∧ row.Shows d
  rows : (st.entryRows origin.id).Nodup
  entries : ∀ entries, d.metadata = some entries → Attached base Added entries ∧
    (∀ e ∈ entries, base.hasKey e.keyId = true ∧ base.hasValue e.valueId = true) ∧
    st.entryRows origin.id = entries.map (Entry.row origin.id)

namespace Mirrors

variable {base st : Store} {Added : Int × Int → Prop} {origin d d' : Document}

theorem hasDocument (h : Mirrors base Added origin d st) : st.hasDocument d.id = true := by
  obtain ⟨row, hrow, -⟩ := h.row
  rw [h.same.id]
  exact Store.hasDocument_of_documentRow? hrow

theorem row_changeDocument (h : Mirrors base Added origin d st) {id : String}
    (hid : id = origin.id) {f : DocumentRow → DocumentRow} (hf : ∀ r, (f r).id = r.id)
    (hshows : ∀ r : DocumentRow, r.Shows d → (f r).Shows d') :
    ∃ row, (st.changeDocument id f).2.documentRow? origin.id = some row ∧ row.Shows d' := by
  obtain ⟨row, hrow, hshown⟩ := h.row
  refine ⟨f row, ?_, hshows row hshown⟩
  rw [Store.documentRow?_changeDocument hf, hrow, Option.map_some, hid,
    if_pos (Store.id_of_documentRow? hrow)]

/-- A change of the row of the document that goes with a change of the copy. -/
theorem changeDocument (h : Mirrors base Added origin d st) {id : String} (hid : id = origin.id)
    {f : DocumentRow → DocumentRow} (hf : ∀ r, (f r).id = r.id)
    (hshows : ∀ r : DocumentRow, r.Shows d → (f r).Shows d') (hsame : d.SameOrigin d')
    (hmetadata : d'.metadata = d.metadata) :
    Mirrors base Added origin d' (st.changeDocument id f).2 := by
  refine ⟨h.same.trans hsame, ?_, h.row_changeDocument hid hf hshows, h.rows, ?_⟩
  · obtain ⟨documents, jobs, entries, rfl⟩ := h.vocabulary
    exact ⟨_, jobs, entries, rfl⟩
  · rw [hmetadata]
    exact h.entries

theorem updateDocument (h : Mirrors base Added origin d st) (hsame : d.SameOrigin d')
    (hmetadata : d'.metadata = d.metadata) (now : Instant) :
    Mirrors base Added origin d' (st.updateDocument d' now).2 :=
  h.changeDocument (hsame.id.trans h.same.id) (fun _ => rfl)
    (fun _ hshows => hshows.withFieldsOf hsame now) hsame hmetadata

/-- What is stored of the entries of a document, as it is loaded. -/
theorem attached_documentEntries (h : Mirrors base Added origin d st) :
    Attached base Added (st.documentEntries origin.id) := by
  refine ⟨Store.nodup_documentEntries h.rows, fun e he => .inl ?_⟩
  obtain ⟨row, -, hrow⟩ :=
    List.mem_filterMap.mp ((st.documentEntries_perm origin.id).mem_iff.mp he)
  obtain ⟨documents, jobs, entries, rfl⟩ := h.vocabulary
  exact (Store.nameEntry?_eq_some hrow).2.2

/-- Storing the copy with its entries. -/
theorem updateWithEntries (h : Mirrors base Added origin d st)
    (hloaded : Loaded base Added d d') {now : Instant} {st' : Store}
    (hstored : st.updateWithEntries d' (d'.entries.map Entry.ids) now = .ok (true, st')) :
    Mirrors base Added origin d' st' := by
  have hid : d'.id = origin.id := hloaded.same.id.trans h.same.id
  obtain ⟨hthere, rfl⟩ := Store.updateWithEntries_true hstored
  have hothers : (st.entries.filter (·.documentId ≠ origin.id)).filter
      (·.documentId = origin.id) = [] := by
    rw [List.filter_filter, List.filter_eq_nil_iff]
    simp
  have hown : (d'.entries.map (Entry.row origin.id)).filter (·.documentId = origin.id) =
      d'.entries.map (Entry.row origin.id) := by
    rw [List.filter_eq_self]
    simp [Entry.row]
  have hrows : Store.entryRows { (st.updateDocument d' now).2 with
      entries := st.entries.filter (·.documentId ≠ d'.id) ++
        (d'.entries.map Entry.ids).eraseDups.map fun p => ⟨d'.id, p.1, p.2⟩ } origin.id =
      d'.entries.map (Entry.row origin.id) := by
    unfold Store.entryRows
    dsimp only
    rw [eraseDups_of_nodup hloaded.attached.nodup, hid, List.map_map, List.filter_append,
      hothers, List.nil_append]
    exact hown
  refine ⟨h.same.trans hloaded.same, ?_, ?_, ?_, ?_⟩
  · obtain ⟨documents, jobs, entries, rfl⟩ := h.vocabulary
    exact ⟨_, jobs, _, rfl⟩
  · exact h.row_changeDocument hid (fun _ => rfl)
      fun _ hshows => hshows.withFieldsOf hloaded.same now
  · rw [hrows]
    apply List.Nodup.of_map (fun r : EntryRow => (r.keyId, r.valueId))
    rw [List.map_map]
    exact hloaded.attached.nodup
  · intro entries hentries
    obtain rfl : entries = d'.entries := Option.some.inj (hentries.symm.trans hloaded.loaded)
    refine ⟨hloaded.attached, fun e he => ?_, hrows⟩
    have hkept := hthere e.ids (List.mem_map_of_mem he)
    obtain ⟨documents, jobs, entries, rfl⟩ := h.vocabulary
    exact hkept

theorem edit {r : Registry} {t : Step} {st' : Store} (hr : r.ActsBuiltin)
    (hdistinct : base.Distinct)
    (hadds : t = .rules → ∀ ids, base.RuleAdds origin.userId ids → Added ids)
    (h : Mirrors base Added origin d st) (hedit : Edit r d st t d' st') :
    Mirrors base Added origin d' st' := by
  cases hedit with
  | none => exact h
  | rehashed hash files path now =>
      have hsame : d.SameOrigin (Handler.rehashed d hash files path) :=
        ⟨rfl, rfl, rfl, rfl, rfl⟩
      exact h.updateDocument hsame rfl now
  | content text now =>
      exact h.changeDocument h.same.id (fun _ => rfl)
        (fun _ hshows => hshows.withContent text now) ⟨rfl, rfl, rfl, rfl, rfl⟩ rfl
  | lang lang now =>
      have hsame : d.SameOrigin { d with lang := lang } := ⟨rfl, rfl, rfl, rfl, rfl⟩
      exact h.updateDocument hsame rfl now
  | rules now hrules hvalues hupdated hstored =>
      subst hupdated
      refine h.updateWithEntries ?_ hstored
      rw [h.same.id]
      have hattached := h.attached_documentEntries
      have hadds := hadds rfl
      rw [← h.same.userId] at hadds
      obtain ⟨documents, jobs, entries, rfl⟩ := h.vocabulary
      exact .ruled hr hdistinct hattached hvalues hrules hadds

theorem changeJobs (h : Mirrors base Added origin d st) (jobs : List JobRow) :
    Mirrors base Added origin d { st with jobs := jobs } := by
  refine ⟨h.same, ?_, h.row, h.rows, h.entries⟩
  obtain ⟨documents, _, entries, rfl⟩ := h.vocabulary
  exact ⟨documents, jobs, entries, rfl⟩

end Mirrors

end Docket
