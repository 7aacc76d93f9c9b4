import Docket.Proofs.Lowercasing
import Docket.Rule.AutoMatch
import Mathlib.Data.List.Induction
import Mathlib.Data.List.Perm.Basic
import Mathlib.Data.List.Nodup

/-!
What a document gets because its content mentions it.  Of the values that are mentioned the
first with each pair of ids is attached, unless the document has an entry with these ids
already.  The filters that are kept from one value to the next are those that compiling
afresh would give, so that it does not matter which values came before.
-/

namespace Docket

/-- Whether a content mentions a value: a value that is not blank occurs in it whatever the case,
or a filter that is not empty is a pattern that is found in it. -/
def AutoMatchValue.isMentioned (v : AutoMatchValue) (content : String) : Bool :=
  match v.matchType with
  | .exact => decide (Text.trim v.value ≠ "") &&
      Text.contains (Text.lowercase content) (Text.lowercase (Text.trim v.value))
  | .regex => decide (v.filter ≠ "") &&
      (Regex.compile v.filter false).toOption.any (·.isMatch content)

/-- The ids of those of some values that a content mentions, in order. -/
def AutoMatchValue.mentionedIds (content : String) (values : List AutoMatchValue) :
    List (Int × Int) :=
  (values.filter (·.isMentioned content)).map (·.entry.ids)

/-- Each filter of a cache is there with what compiling it gives. -/
def FilterCache.Faithful (cache : FilterCache) : Prop :=
  ∀ filter r, (filter, r) ∈ cache → r = (Regex.compile filter false).toOption

/-- What is in the cache after some values have been looked for in a content. -/
def FilterCache.afterAll (content : String) (values : List AutoMatchValue) : FilterCache :=
  values.foldl (fun cache v => (v.found content (Text.lowercase content) cache).2) []

/-- The values that are attached to a document which has entries with some ids: those that are
mentioned, unless their ids are among these or among the ids of values before. -/
def AutoMatchValue.chosen (content : String) (known : List (Int × Int)) :
    List AutoMatchValue → List AutoMatchValue
  | [] => []
  | v :: rest =>
      if v.isMentioned content ∧ v.entry.ids ∉ known then
        v :: chosen content (known ++ [v.entry.ids]) rest
      else chosen content known rest

/-- The values that are attached to a document. -/
def Document.chosen (d : Document) (values : List AutoMatchValue) : List AutoMatchValue :=
  AutoMatchValue.chosen d.content (d.entries.map Entry.ids) values

/-- A document with more entries behind its own. Without any it stays as it is. -/
def Document.withMore (d : Document) (new : List Entry) : Document :=
  if new = [] then d else { d with metadata := some (d.entries ++ new) }

/-! The filters. -/

namespace FilterCache

variable {cache : FilterCache}

theorem faithful_nil : Faithful [] := by
  intro filter r h
  cases h

theorem Faithful.compile (h : cache.Faithful) (filter : String) :
    (cache.compile filter).1 = (Regex.compile filter false).toOption ∧
      (cache.compile filter).2.Faithful := by
  unfold FilterCache.compile
  cases hfind : cache.find? (·.1 = filter) with
  | some found =>
      have hname : found.1 = filter := by simpa using List.find?_some hfind
      have hkept := h found.1 found.2 (List.mem_of_find?_eq_some hfind)
      rw [hname] at hkept
      exact ⟨hkept, h⟩
  | none =>
      refine ⟨rfl, ?_⟩
      intro f r hr
      rcases List.mem_cons.mp hr with hnew | hold
      · cases hnew
        rfl
      · exact h f r hold

/-- A value is found exactly if it is mentioned, and the cache stays faithful. -/
theorem Faithful.found (h : cache.Faithful) (v : AutoMatchValue) (content : String) :
    (v.found content (Text.lowercase content) cache).1 = v.isMentioned content ∧
      (v.found content (Text.lowercase content) cache).2.Faithful := by
  unfold AutoMatchValue.found AutoMatchValue.isMentioned
  cases v.matchType with
  | exact =>
      refine ⟨?_, h⟩
      have hblank : (Text.lowercase (Text.trim v.value)).isEmpty =
          decide (Text.trim v.value = "") := by
        rw [Bool.eq_iff_iff, String.isEmpty_iff, decide_eq_true_iff, Text.lowercase_eq_empty]
      simp [hblank]
  | regex =>
      obtain ⟨hcompile, hkept⟩ := h.compile v.filter
      by_cases hempty : v.filter = ""
      · simp [hempty, h]
      · simp [hempty, hcompile, hkept]

theorem faithful_afterAll (content : String) (values : List AutoMatchValue) :
    (afterAll content values).Faithful := by
  unfold afterAll
  induction values using List.reverseRecOn with
  | nil => exact faithful_nil
  | append_singleton before v ih =>
      rw [List.foldl_append]
      exact (ih.found v content).2

end FilterCache

/-! The values that are attached. -/

namespace AutoMatchValue

variable {content : String} {known : List (Int × Int)} {values : List AutoMatchValue}

theorem chosen_cons_of_pos {v : AutoMatchValue} (hmentioned : v.isMentioned content = true)
    (hnew : v.entry.ids ∉ known) (rest : List AutoMatchValue) :
    chosen content known (v :: rest) = v :: chosen content (known ++ [v.entry.ids]) rest := by
  simp [chosen, hmentioned, hnew]

theorem chosen_cons_of_neg {v : AutoMatchValue}
    (h : v.isMentioned content = true → v.entry.ids ∈ known) (rest : List AutoMatchValue) :
    chosen content known (v :: rest) = chosen content known rest := by
  cases hmentioned : v.isMentioned content with
  | false => simp [chosen, hmentioned]
  | true => simp [chosen, hmentioned, h hmentioned]

theorem mem_mentionedIds {p : Int × Int} : p ∈ mentionedIds content values ↔
    ∃ v ∈ values, v.isMentioned content = true ∧ v.entry.ids = p := by
  simp [mentionedIds, and_assoc]

theorem mem_mentionedIds_of_perm {values' : List AutoMatchValue} (h : values.Perm values')
    {p : Int × Int} : p ∈ mentionedIds content values' ↔ p ∈ mentionedIds content values := by
  rw [mem_mentionedIds, mem_mentionedIds]
  simp only [h.mem_iff]

theorem mentionedIds_cons_of_pos {v : AutoMatchValue} (h : v.isMentioned content = true)
    (rest : List AutoMatchValue) :
    mentionedIds content (v :: rest) = v.entry.ids :: mentionedIds content rest := by
  simp [mentionedIds, h]

theorem mentionedIds_cons_of_neg {v : AutoMatchValue} (h : ¬ v.isMentioned content = true)
    (rest : List AutoMatchValue) :
    mentionedIds content (v :: rest) = mentionedIds content rest := by
  simp [mentionedIds, h]

/-- Each pair of ids that is mentioned and not known is attached once, and the pairs stand in
the order in which they are mentioned first. -/
theorem map_ids_chosen : (chosen content known values).map (·.entry.ids) =
    ((mentionedIds content values).filter (· ∉ known)).eraseDups := by
  induction values generalizing known with
  | nil => rfl
  | cons v rest ih =>
      by_cases hmentioned : v.isMentioned content = true
      · rw [mentionedIds_cons_of_pos hmentioned]
        by_cases hnew : v.entry.ids ∈ known
        · rw [chosen_cons_of_neg (fun _ => hnew), ih, List.filter_cons_of_neg (by simpa)]
        · rw [chosen_cons_of_pos hmentioned hnew, List.map_cons, ih,
            List.filter_cons_of_pos (by simpa), List.eraseDups_cons, List.filter_filter]
          -- Of the ids behind, those of the value itself are known from now on.
          congr 2
          apply List.filter_congr
          intro p _
          rw [Bool.eq_iff_iff]
          simp [and_comm]
      · rw [chosen_cons_of_neg (fun h => absurd h hmentioned), ih,
          mentionedIds_cons_of_neg hmentioned]

theorem mem_ids_chosen {p : Int × Int} :
    p ∈ (chosen content known values).map (·.entry.ids) ↔
      p ∈ mentionedIds content values ∧ p ∉ known := by
  rw [map_ids_chosen, List.mem_eraseDups, List.mem_filter, decide_eq_true_iff]

theorem nodup_ids_chosen : ((chosen content known values).map (·.entry.ids)).Nodup := by
  induction values generalizing known with
  | nil => exact List.nodup_nil
  | cons v rest ih =>
      by_cases h : v.isMentioned content = true ∧ v.entry.ids ∉ known
      · rw [chosen_cons_of_pos h.1 h.2, List.map_cons, List.nodup_cons, mem_ids_chosen]
        exact ⟨fun hmem => hmem.2 (by simp), ih⟩
      · rw [chosen_cons_of_neg (fun hm => by_contra fun hnew => h ⟨hm, hnew⟩)]
        exact ih

/-- Of the values that are mentioned with the same ids it is the first that is attached. -/
theorem first_of_mem_chosen {v : AutoMatchValue} (h : v ∈ chosen content known values) :
    ∃ before after, values = before ++ v :: after ∧ v.isMentioned content = true ∧
      v.entry.ids ∉ known ∧
      ∀ u ∈ before, u.isMentioned content = true → u.entry.ids ≠ v.entry.ids := by
  induction values generalizing known with
  | nil => cases h
  | cons u rest ih =>
      by_cases hu : u.isMentioned content = true ∧ u.entry.ids ∉ known
      · rw [chosen_cons_of_pos hu.1 hu.2] at h
        rcases List.mem_cons.mp h with rfl | h
        · exact ⟨[], rest, rfl, hu.1, hu.2, by simp⟩
        · obtain ⟨before, after, rfl, hv, hnew, hfirst⟩ := ih h
          rw [List.mem_append, not_or, List.mem_singleton] at hnew
          refine ⟨u :: before, after, rfl, hv, hnew.1, ?_⟩
          intro w hw hmentioned
          rcases List.mem_cons.mp hw with rfl | hw
          · exact fun hsame => hnew.2 hsame.symm
          · exact hfirst w hw hmentioned
      · rw [chosen_cons_of_neg (fun hm => by_contra fun hnew => hu ⟨hm, hnew⟩)] at h
        obtain ⟨before, after, rfl, hv, hnew, hfirst⟩ := ih h
        refine ⟨u :: before, after, rfl, hv, hnew, ?_⟩
        intro w hw hmentioned
        rcases List.mem_cons.mp hw with rfl | hw
        · -- The value was passed over because its ids are known, so that they are others.
          intro hsame
          exact hu ⟨hmentioned, hsame ▸ hnew⟩
        · exact hfirst w hw hmentioned

end AutoMatchValue

namespace Document

variable {d : Document} {values : List AutoMatchValue}

/-! A document that is looked through. -/

theorem withMore_cons (d : Document) (e : Entry) (rest : List Entry) :
    (d.withMore [e]).withMore rest = d.withMore (e :: rest) := by
  cases rest with
  | nil => simp [withMore]
  | cons e' rest => simp [withMore, entries]

@[simp] theorem entries_withMore (d : Document) (new : List Entry) :
    (d.withMore new).entries = d.entries ++ new := by
  unfold withMore
  split
  · next h => rw [h, List.append_nil]
  · rfl

@[simp] theorem content_withMore (d : Document) (new : List Entry) :
    (d.withMore new).content = d.content := by
  unfold withMore
  split <;> rfl

theorem hasEntry_iff {e : Entry} : d.hasEntry e = true ↔ e.ids ∈ d.entries.map Entry.ids := by
  unfold hasEntry
  rw [List.any_eq_true, List.mem_map]
  simp

theorem addEntry_of_not_hasEntry {e : Entry} (h : ¬ d.hasEntry e = true) :
    d.addEntry e = d.withMore [e] := by
  simp [addEntry, withMore, h]

theorem mem_ids_chosen {p : Int × Int} : p ∈ (d.chosen values).map (·.entry.ids) ↔
    p ∈ AutoMatchValue.mentionedIds d.content values ∧ p ∉ d.entries.map Entry.ids :=
  AutoMatchValue.mem_ids_chosen

theorem nodup_ids_chosen : ((d.chosen values).map (·.entry.ids)).Nodup :=
  AutoMatchValue.nodup_ids_chosen

/-- The values are gone through with a cache that tells what compiling each filter would. -/
theorem autoMatch_go {cache : FilterCache} (hcache : cache.Faithful) (added : Nat) :
    autoMatch.go (Text.lowercase d.content) d added cache values =
      (d.withMore ((d.chosen values).map (·.entry)), added + (d.chosen values).length) := by
  induction values generalizing d added cache with
  | nil => simp [autoMatch.go, chosen, AutoMatchValue.chosen, withMore]
  | cons v rest ih =>
      obtain ⟨hfound, hkept⟩ := hcache.found v d.content
      unfold autoMatch.go
      dsimp only
      rw [hfound]
      by_cases hmentioned : v.isMentioned d.content = true
      · by_cases hthere : d.hasEntry v.entry = true
        · rw [chosen, AutoMatchValue.chosen_cons_of_neg (fun _ => hasEntry_iff.mp hthere), ← chosen]
          simp [hthere, ih hkept]
        · have hnew : v.entry.ids ∉ d.entries.map Entry.ids := fun h => hthere (hasEntry_iff.mpr h)
          have hrest := ih (d := d.withMore [v.entry]) hkept (added + 1)
          rw [chosen, content_withMore, entries_withMore, List.map_append] at hrest
          rw [chosen, AutoMatchValue.chosen_cons_of_pos hmentioned hnew,
            addEntry_of_not_hasEntry hthere]
          simp only [hmentioned, hthere, Bool.not_false, Bool.and_self, if_true]
          rw [hrest]
          simp [withMore_cons, Nat.add_assoc, Nat.add_comm 1]
      · rw [chosen, AutoMatchValue.chosen_cons_of_neg (fun h => absurd h hmentioned), ← chosen]
        simp [hmentioned, ih hkept]

/-- What is attached to a document are the entries of the values that are chosen for it. -/
theorem autoMatch_eq (d : Document) (values : List AutoMatchValue) :
    d.autoMatch values =
      (d.withMore ((d.chosen values).map (·.entry)), (d.chosen values).length) := by
  rw [autoMatch, autoMatch_go FilterCache.faithful_nil, Nat.zero_add]

theorem mem_ids_autoMatch {p : Int × Int} :
    p ∈ (d.autoMatch values).1.entries.map Entry.ids ↔
      p ∈ d.entries.map Entry.ids ∨ p ∈ AutoMatchValue.mentionedIds d.content values := by
  have hentries : ((d.chosen values).map (·.entry)).map Entry.ids =
      (d.chosen values).map (·.entry.ids) := by
    rw [List.map_map]
    rfl
  rw [autoMatch_eq, entries_withMore, List.map_append, List.mem_append, hentries, mem_ids_chosen]
  by_cases hknown : p ∈ d.entries.map Entry.ids <;> simp [hknown]

/-- In whatever order the values are looked for, as many of them are attached. -/
theorem length_chosen_of_perm {values' : List AutoMatchValue} (h : values.Perm values') :
    (d.chosen values').length = (d.chosen values).length := by
  have hperm : ((d.chosen values').map (·.entry.ids)).Perm
      ((d.chosen values).map (·.entry.ids)) := by
    rw [List.perm_ext_iff_of_nodup nodup_ids_chosen nodup_ids_chosen]
    intro p
    rw [mem_ids_chosen, mem_ids_chosen, AutoMatchValue.mem_mentionedIds_of_perm h]
  simpa using hperm.length_eq

/-- Once the values are attached there is none to choose. -/
theorem chosen_autoMatch : (d.autoMatch values).1.chosen values = [] := by
  have hcontent : (d.autoMatch values).1.content = d.content := by
    rw [autoMatch_eq, content_withMore]
  rw [← List.map_eq_nil_iff (f := fun v => v.entry.ids), List.eq_nil_iff_forall_not_mem]
  intro p hp
  obtain ⟨hmentioned, hnew⟩ := mem_ids_chosen.mp hp
  rw [hcontent] at hmentioned
  exact hnew (mem_ids_autoMatch.mpr (.inr hmentioned))

/-- Some values are gone through before others, which then find the cache that those have left. -/
theorem autoMatch_go_append (added : Nat) (cache : FilterCache) (before after : List AutoMatchValue) :
    let lowered := Text.lowercase d.content
    let halfway := autoMatch.go lowered d added cache before
    autoMatch.go lowered d added cache (before ++ after) =
      autoMatch.go lowered halfway.1 halfway.2
        (before.foldl (fun cache v => (v.found d.content lowered cache).2) cache) after := by
  induction before generalizing d added cache with
  | nil => rfl
  | cons v rest ih =>
      have hcontent : (d.addEntry v.entry).content = d.content := by
        unfold addEntry
        split <;> rfl
      have hadded := ih (d := d.addEntry v.entry) (added + 1)
      rw [hcontent] at hadded
      dsimp only at ih hadded ⊢
      rw [List.cons_append, autoMatch.go, autoMatch.go, List.foldl_cons]
      dsimp only
      split
      · exact hadded _
      · exact ih _ _

end Document

theorem AutoMatchValue.isMentioned_iff {v : AutoMatchValue} {content : String} :
    v.isMentioned content = true ↔
      (v.matchType = .exact ∧ Text.trim v.value ≠ "" ∧
        Text.contains (Text.lowercase content) (Text.lowercase (Text.trim v.value)) = true) ∨
      (v.matchType = .regex ∧ v.filter ≠ "" ∧
        ∃ re, Regex.compile v.filter false = .ok re ∧ re.isMatch content = true) := by
  unfold isMentioned
  cases v.matchType with
  | exact => simp
  | regex => cases Regex.compile v.filter false <;> simp [Except.toOption]

namespace Document

/-- Looking through a document attaches the entry of the first mentioned value for each pair of
ids that is not attached yet, in the order of these values and behind what is there, and
changes nothing else; the number that is returned is how many these are.  In another order
the values give as many entries with the same ids, and once they are attached nothing more
is.  Whatever values were looked for before, the filters that are kept of them give each
value the verdict that compiling its filter would. -/
theorem autoMatch_unites (d : Document) (values : List AutoMatchValue) :
    (∃ new : List AutoMatchValue,
      d.autoMatch values = (d.withMore (new.map (·.entry)), new.length) ∧
      new.map (·.entry.ids) = ((AutoMatchValue.mentionedIds d.content values).filter
        (· ∉ d.entries.map Entry.ids)).eraseDups ∧
      (new.map (·.entry.ids)).Nodup ∧
      ∀ v ∈ new, ∃ before after, values = before ++ v :: after ∧
        v.isMentioned d.content = true ∧
        ∀ u ∈ before, u.isMentioned d.content = true → u.entry.ids ≠ v.entry.ids) ∧
    (∀ values', values.Perm values' →
      (d.autoMatch values').2 = (d.autoMatch values).2 ∧
      ∀ p, p ∈ (d.autoMatch values').1.entries.map Entry.ids ↔
        p ∈ (d.autoMatch values).1.entries.map Entry.ids) ∧
    (d.autoMatch values).1.autoMatch values = ((d.autoMatch values).1, 0) ∧
    (∀ before v after, values = before ++ v :: after →
      d.autoMatch values = autoMatch.go (Text.lowercase d.content) (d.autoMatch before).1
        (d.autoMatch before).2 (FilterCache.afterAll d.content before) (v :: after) ∧
      (v.found d.content (Text.lowercase d.content)
        (FilterCache.afterAll d.content before)).1 = v.isMentioned d.content) ∧
    ∀ (v : AutoMatchValue) (content : String), v.isMentioned content = true ↔
      (v.matchType = .exact ∧ Text.trim v.value ≠ "" ∧
        Text.contains (Text.lowercase content) (Text.lowercase (Text.trim v.value)) = true) ∨
      (v.matchType = .regex ∧ v.filter ≠ "" ∧
        ∃ re, Regex.compile v.filter false = .ok re ∧ re.isMatch content = true) := by
  refine ⟨⟨d.chosen values, autoMatch_eq d values, AutoMatchValue.map_ids_chosen, nodup_ids_chosen,
    ?_⟩, ?_, ?_, ?_, fun v content => AutoMatchValue.isMentioned_iff⟩
  · intro v hv
    obtain ⟨before, after, hsplit, hmentioned, -, hfirst⟩ := AutoMatchValue.first_of_mem_chosen hv
    exact ⟨before, after, hsplit, hmentioned, hfirst⟩
  · intro values' hperm
    constructor
    · rw [autoMatch_eq, autoMatch_eq]
      exact length_chosen_of_perm hperm
    · intro p
      rw [mem_ids_autoMatch, mem_ids_autoMatch, AutoMatchValue.mem_mentionedIds_of_perm hperm]
  · rw [autoMatch_eq (d.autoMatch values).1, chosen_autoMatch]
    rfl
  · rintro before v after rfl
    exact ⟨autoMatch_go_append 0 [] before (v :: after),
      ((FilterCache.faithful_afterAll d.content before).found v d.content).1⟩

/-- A bill of which the kind is known. -/
def bill : Document :=
  { (default : Document) with content := "ACME bill B7", metadata := some [⟨1, "", 5, ""⟩] }

/-- A filter that is no pattern, the vendor under two spellings, a filter that is found, a blank
value, and the kind that is known. -/
def billValues : List AutoMatchValue := [
  ⟨1, "number", 1, "broken", .regex, "(["⟩,
  ⟨1, "vendor", 2, "Acme", .exact, ""⟩,
  ⟨1, "vendor", 2, " acme ", .exact, ""⟩,
  ⟨1, "number", 3, "bills", .regex, "B[0-9]"⟩,
  ⟨1, "vendor", 4, "  ", .exact, ""⟩,
  ⟨1, "kind", 5, "bill", .exact, ""⟩]

/-- The vendor and the number are attached once, whichever way round the values are gone
through, and the filter that is no pattern does not get in the way of the other. -/
theorem autoMatch_unites_bill :
    billValues.Perm billValues.reverse ∧
    (bill.autoMatch billValues).2 = 2 ∧ (bill.autoMatch billValues.reverse).2 = 2 ∧
    (∀ p, p ∈ (bill.autoMatch billValues.reverse).1.entries.map Entry.ids ↔
      p ∈ [((1 : Int), (5 : Int)), (1, 2), (1, 3)]) ∧
    (bill.autoMatch billValues).1.autoMatch billValues = ((bill.autoMatch billValues).1, 0) ∧
    ∃ before v after, billValues = before ++ v :: after ∧ before.length = 3 ∧
      (v.found bill.content (Text.lowercase bill.content)
        (FilterCache.afterAll bill.content before)).1 = true := by
  obtain ⟨-, hperm, hagain, hcache, -⟩ := autoMatch_unites bill billValues
  have hreverse : billValues.Perm billValues.reverse := billValues.reverse_perm.symm
  have hcount : (bill.autoMatch billValues).2 = 2 := by decide +kernel
  have hids : (bill.autoMatch billValues).1.entries.map Entry.ids = [(1, 5), (1, 2), (1, 3)] := by
    decide +kernel
  obtain ⟨hsame, hmem⟩ := hperm billValues.reverse hreverse
  rw [hids] at hmem
  have hsplit : billValues = billValues.take 3 ++
      ⟨1, "number", 3, "bills", .regex, "B[0-9]"⟩ :: billValues.drop 4 := rfl
  obtain ⟨-, hfound⟩ := hcache _ _ _ hsplit
  refine ⟨hreverse, hcount, hsame.trans hcount, hmem, hagain, _, _, _, hsplit, rfl, ?_⟩
  rw [hfound]
  decide +kernel

end Document

end Docket
