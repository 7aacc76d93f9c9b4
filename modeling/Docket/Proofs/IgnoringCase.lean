import Docket.Proofs.Mentions

/-!
What is lost when the case of a literal text is ignored.  The text and what is looked for in
it are lower-cased each as a whole, so that a capital sigma in what is looked for may become
another letter than the same sigma in the text: it ends a word in the one and none in the
other.  A match is kept wherever no sigma does so, and nothing but a sigma loses one.
-/

namespace Docket

open Docket.Text (KeepsSigmas)

/-- What may stand around a value in a text for a relation to hold between the two. -/
def TextRelation.Admits : TextRelation → (before after : String) → Prop
  | .equals, before, after => before = "" ∧ after = ""
  | .starts, before, _ => before = ""
  | .contains, _, _ => True

/-- A condition as it is when it heeds case. -/
def Condition.heedingCase (c : Condition) : Condition := { c with caseInsensitive := false }

/-- A condition as it is when it ignores case. -/
def Condition.ignoringCase (c : Condition) : Condition := { c with caseInsensitive := true }

namespace TextRelation

variable {relation : TextRelation} {text value before after : String}

theorem holds_iff : relation.holds text value = true ↔
    ∃ before after, text = before ++ value ++ after ∧ relation.Admits before after := by
  cases relation with
  | equals => simp [holds, Admits]
  | starts => simp [holds, Admits, Text.startsWith_iff]
  | contains => simp [holds, Admits, Text.contains_iff]

/-- Where a value keeps its sigmas, the relation holds whatever the case. -/
theorem holds_lowercase (htext : text = before ++ value ++ after)
    (hadmits : relation.Admits before after) (hkeeps : KeepsSigmas before value after) :
    relation.holds (Text.lowercase text) (Text.lowercase value) = true := by
  subst htext
  cases relation with
  | equals =>
      obtain ⟨rfl, rfl⟩ := hadmits
      simp [holds]
  | starts =>
      obtain rfl := hadmits
      simpa [holds] using Text.startsWith_lowercase.mpr hkeeps
  | contains => exact Text.contains_lowercase hkeeps

/-- A start that does not keep its sigmas is lost. -/
theorem keepsSigmas_of_starts (htext : text = before ++ value ++ after)
    (hadmits : starts.Admits before after)
    (h : starts.holds (Text.lowercase text) (Text.lowercase value) = true) :
    KeepsSigmas before value after := by
  obtain rfl := hadmits
  rw [String.empty_append] at htext
  subst htext
  exact Text.startsWith_lowercase.mp h

end TextRelation

namespace Condition

variable {c : Condition} {field : TextField} {relation : TextRelation}

theorem check_heedingCase (hkind : c.kind = .text field relation) (hliteral : c.isRegex = false)
    (d : Document) :
    c.heedingCase.check d = .ok (relation.holds (d.text field) c.value) := by
  have hheeding : c.heedingCase.kind = .text field relation := hkind
  unfold check
  rw [hheeding]
  simp [matchText, heedingCase, hliteral]

theorem check_ignoringCase (hkind : c.kind = .text field relation) (hliteral : c.isRegex = false)
    (d : Document) :
    c.ignoringCase.check d =
      .ok (relation.holds (Text.lowercase (d.text field)) (Text.lowercase c.value)) := by
  have hignoring : c.ignoringCase.kind = .text field relation := hkind
  unfold check
  rw [hignoring]
  simp [matchText, ignoringCase, hliteral]

end Condition

/-- A value keeps its pair of ids where it occurs in a content and keeps its sigmas. -/
theorem AutoMatchValue.isMentioned_of_keepsSigmas {v : AutoMatchValue}
    {content before after : String} (htype : v.matchType = .exact)
    (hblank : Text.trim v.value ≠ "") (hcontent : content = before ++ Text.trim v.value ++ after)
    (hkeeps : KeepsSigmas before (Text.trim v.value) after) :
    v.isMentioned content = true := by
  rw [AutoMatchValue.isMentioned_iff]
  refine .inl ⟨htype, hblank, ?_⟩
  rw [hcontent]
  exact Text.contains_lowercase hkeeps

/-- A literal condition on a text that holds when it heeds case also holds when it ignores case,
if it asks for equality or its value has no capital sigma, and else wherever the value keeps
its sigmas.  At a place where it does not, the lower-cased text does not go on with the
lower-cased value, and a condition on how a text starts no longer holds.  In the same way a
value that is not blank and occurs in the content of a document is attached to it where its
sigmas are kept. -/
theorem ignoringCase_keeps_unless_sigma (d : Document) :
    (∀ (c : Condition) (field : TextField) (relation : TextRelation),
      c.kind = .text field relation → c.isRegex = false → c.heedingCase.check d = .ok true →
      (relation = .equals ∨ 'Σ' ∉ c.value.toList → c.ignoringCase.check d = .ok true) ∧
      (∃ before after, d.text field = before ++ c.value ++ after ∧
        relation.Admits before after) ∧
      ∀ before after, d.text field = before ++ c.value ++ after → relation.Admits before after →
        (KeepsSigmas before c.value after → c.ignoringCase.check d = .ok true) ∧
        (relation = .starts → c.ignoringCase.check d = .ok true →
          KeepsSigmas before c.value after) ∧
        ((Text.lowercase c.value).toList <+: (Text.lowercase (d.text field)).toList.drop
          (Text.lowercase before).toList.length ↔ KeepsSigmas before c.value after)) ∧
    ∀ (v : AutoMatchValue) (values : List AutoMatchValue) (before after : String), v ∈ values →
      v.matchType = .exact → Text.trim v.value ≠ "" →
      d.content = before ++ Text.trim v.value ++ after →
      (KeepsSigmas before (Text.trim v.value) after →
        v.entry.ids ∈ (d.autoMatch values).1.entries.map Entry.ids) ∧
      ('Σ' ∉ (Text.trim v.value).toList →
        v.entry.ids ∈ (d.autoMatch values).1.entries.map Entry.ids) := by
  constructor
  · intro c field relation hkind hliteral hmatch
    rw [Condition.check_heedingCase hkind hliteral, Except.ok.injEq,
      TextRelation.holds_iff] at hmatch
    rw [Condition.check_ignoringCase hkind hliteral, Except.ok.injEq]
    refine ⟨?_, hmatch, ?_⟩
    · obtain ⟨before, after, htext, hadmits⟩ := hmatch
      rintro (rfl | hsigma)
      · obtain ⟨rfl, rfl⟩ := hadmits
        exact TextRelation.holds_lowercase htext ⟨rfl, rfl⟩ (Text.keepsSigmas_alone _)
      · exact TextRelation.holds_lowercase htext hadmits (Text.keepsSigmas_of_notMem hsigma _ _)
    · intro before after htext hadmits
      refine ⟨TextRelation.holds_lowercase htext hadmits, ?_, ?_⟩
      · rintro rfl hholds
        exact TextRelation.keepsSigmas_of_starts htext hadmits hholds
      · rw [htext]
        exact Text.lowercase_at before c.value after
  · intro v values before after hv htype hblank hcontent
    have hattached : KeepsSigmas before (Text.trim v.value) after →
        v.entry.ids ∈ (d.autoMatch values).1.entries.map Entry.ids := by
      intro hkeeps
      have hmentioned := AutoMatchValue.isMentioned_of_keepsSigmas htype hblank hcontent hkeeps
      rw [Document.mem_ids_autoMatch, AutoMatchValue.mem_mentionedIds]
      exact .inr ⟨v, hv, hmentioned, rfl⟩
    exact ⟨hattached, fun hsigma => hattached (Text.keepsSigmas_of_notMem hsigma _ _)⟩

/-- A sigma at the end of a word, in what is looked for and in the text. -/
theorem ignoringCase_keeps_unless_sigma_wordEnd :
    let c : Condition := { kind := .text .name .contains, value := "AΣ" }
    let d : Document := { (default : Document) with name := "BAΣ C", content := "BAΣ C" }
    let v : AutoMatchValue := ⟨1, "code", 2, " AΣ ", .exact, ""⟩
    c.heedingCase.check d = .ok true ∧ KeepsSigmas "B" "AΣ" " C" ∧
    c.ignoringCase.check d = .ok true ∧
    v.entry.ids ∈ (d.autoMatch [v]).1.entries.map Entry.ids := by
  intro c d v
  obtain ⟨hcondition, hvalue⟩ := ignoringCase_keeps_unless_sigma d
  have hmatch : c.heedingCase.check d = .ok true := by decide +kernel
  have hkeeps : KeepsSigmas "B" "AΣ" " C" := by
    rw [← Text.lowercase_at]
    decide +kernel
  obtain ⟨-, -, hplaces⟩ := hcondition c .name .contains rfl rfl hmatch
  have htrim : Text.trim v.value = "AΣ" := by decide +kernel
  obtain ⟨hattached, -⟩ := hvalue v [v] "B" " C" List.mem_cons_self rfl (by rw [htrim]; decide)
    (by rw [htrim]; rfl)
  rw [htrim] at hattached
  exact ⟨hmatch, hkeeps, (hplaces "B" " C" rfl trivial).1 hkeeps, hattached hkeeps⟩

/-- A sigma at the end of what is looked for, but within a word of the text: the lower-cased text
neither starts with it nor has it in it. -/
theorem ignoringCase_loses_sigma :
    let starts : Condition := { kind := .text .name .starts, value := "AΣ" }
    let contains : Condition := { kind := .text .name .contains, value := "AΣ" }
    let d : Document := { (default : Document) with name := "AΣA", content := "AΣA" }
    let v : AutoMatchValue := ⟨1, "code", 2, "AΣ", .exact, ""⟩
    starts.heedingCase.check d = .ok true ∧ starts.ignoringCase.check d = .ok false ∧
    contains.heedingCase.check d = .ok true ∧ contains.ignoringCase.check d = .ok false ∧
    Text.trim v.value ≠ "" ∧ Text.contains d.content (Text.trim v.value) = true ∧
    v.entry.ids ∉ (d.autoMatch [v]).1.entries.map Entry.ids := by
  decide +kernel

end Docket
