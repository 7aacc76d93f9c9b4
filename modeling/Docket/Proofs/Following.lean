import Mathlib.Data.List.TakeWhile
import Docket.Proofs.Jobs
import Docket.Regex.Reader

/-!
What the reader of patterns makes of a closing parenthesis that is written behind what it has
read.  Each of its parts leaves the parenthesis, and the text behind it, as they stand, or it has
lost them in a comment that was still open, and then the rest of the line is lost with them.
-/

namespace Docket.Regex

open Docket.Unicode (isWhitespace)
open Docket.Text (hexValue?)

/-- What may stand behind a pattern in a group: nothing, or a closing parenthesis first. -/
def Closing (t : List Char) : Prop := t = [] ∨ ∃ u, t = ')' :: u

theorem Closing.head_ne {t : List Char} (ht : Closing t) {c : Char} (hc : c ≠ ')') :
    t.head? ≠ some c := by
  rcases ht with rfl | ⟨u, rfl⟩
  · simp
  · simpa using Ne.symm hc

/-- A reader that has read a text up to a rest, of which it makes `g rest`, leaves a closing
parenthesis behind the text and all that follows as they stand, unless it has lost them. -/
structure Leaves {σ : Type} (f : List Char → Except Fault σ) (g : List Char → σ)
    (s rest : List Char) : Prop where
  reads : f s = .ok (g rest)
  shorter : rest.length ≤ s.length
  behind : (∀ u, f (s ++ ')' :: u) = .ok (g (rest ++ ')' :: u))) ∨
    (rest = [] ∧ ∀ u, '\n' ∉ u → f (s ++ ')' :: u) = .ok (g []))

namespace Leaves

variable {σ τ : Type} {f f' : List Char → Except Fault σ} {g : List Char → σ}
  {h : σ → Except Fault τ} {k : List Char → τ} {s mid rest : List Char} {c : Char}

theorem here : Leaves (fun s => .ok (g s)) g s s :=
  ⟨rfl, Nat.le_refl _, .inl fun _ => rfl⟩

/-- A reader that goes on as another does behind what it has passed leaves what the other leaves. -/
theorem of_append (hf : Leaves f' g mid rest) (hlength : mid.length ≤ s.length)
    (happend : ∀ t, Closing t → f (s ++ t) = f' (mid ++ t)) : Leaves f g s rest where
  reads := by
    have h := happend [] (.inl rfl)
    rw [List.append_nil, List.append_nil] at h
    exact h.trans hf.reads
  shorter := Nat.le_trans hf.shorter hlength
  behind := by
    have h (u : List Char) := happend _ (.inr ⟨u, rfl⟩)
    simp only [h]
    exact hf.behind

theorem cons (hf : Leaves (fun s => f (c :: s)) g s rest) : Leaves f g (c :: s) rest where
  reads := hf.reads
  shorter := Nat.le_succ_of_le hf.shorter
  behind := hf.behind

theorem bind (hf : Leaves f g s mid) (hh : Leaves (fun r => h (g r)) k mid rest) :
    Leaves (fun s => f s >>= h) k s rest where
  reads := by rw [hf.reads]; exact hh.reads
  shorter := Nat.le_trans hh.shorter hf.shorter
  behind := by
    rcases hf.behind with hkept | ⟨rfl, hlost⟩
    · simp only [hkept]
      exact hh.behind
    · have hempty : rest = [] := List.eq_nil_of_length_eq_zero (Nat.le_zero.mp hh.shorter)
      refine .inr ⟨hempty, fun u hu => ?_⟩
      rw [hlost u hu]
      rw [hempty] at hh
      exact hh.reads

theorem map (φ : σ → τ) (hf : Leaves f g s rest) :
    Leaves (fun s => (f s).map φ) (fun rest => φ (g rest)) s rest where
  reads := by rw [hf.reads]; rfl
  shorter := hf.shorter
  behind := by
    rcases hf.behind with hkept | ⟨rfl, hlost⟩
    · exact .inl fun u => by rw [hkept u]; rfl
    · exact .inr ⟨rfl, fun u hu => by rw [hlost u hu]; rfl⟩

/-- A reader that has left something has left all that follows. -/
theorem kept (hf : Leaves f g s rest) (hrest : rest ≠ []) {t : List Char} (ht : Closing t) :
    f (s ++ t) = .ok (g (rest ++ t)) := by
  rcases ht with rfl | ⟨u, rfl⟩
  · rw [List.append_nil, List.append_nil]
    exact hf.reads
  · rcases hf.behind with hkept | ⟨hempty, -⟩
    · exact hkept u
    · exact absurd hempty hrest

end Leaves

/-! Blanks and comments. -/

theorem isWhitespace_parenthesis : isWhitespace ')' = false := by decide +kernel

theorem dropBlank_of_not_mem {u : List Char} (hu : '\n' ∉ u) : dropBlank true u = [] := by
  induction u with
  | nil => rfl
  | cons c u ih =>
      simp only [List.mem_cons, not_or] at hu
      rw [dropBlank, decide_eq_true (Ne.symm hu.1)]
      exact ih hu.2

theorem dropBlank_leaves (comment : Bool) (s : List Char) :
    Leaves (fun s => .ok (dropBlank comment s)) id s (dropBlank comment s) := by
  induction s generalizing comment with
  | nil =>
      cases comment with
      | false =>
          refine ⟨rfl, Nat.le_refl _, .inl fun u => ?_⟩
          simp [dropBlank, isWhitespace_parenthesis]
      | true =>
          refine ⟨rfl, Nat.le_refl _, .inr ⟨rfl, fun u hu => ?_⟩⟩
          simp [dropBlank, dropBlank_of_not_mem hu]
  | cons c s ih =>
      cases comment with
      | true => exact .cons (ih _)
      | false =>
          by_cases hblank : isWhitespace c = true
          · apply Leaves.cons
            simp only [dropBlank, hblank, if_true]
            exact ih _
          · by_cases hhash : c = '#'
            · apply Leaves.cons
              simp only [dropBlank, hhash, if_true]
              exact ih _
            · have hstays (u : List Char) : dropBlank false (c :: u) = c :: u := by
                simp [dropBlank, hblank, hhash]
              refine ⟨rfl, ?_, .inl fun u => ?_⟩
              · rw [hstays]
              · rw [List.cons_append, hstays, hstays]
                rfl

theorem skipBlank_leaves (verbose : Bool) (s : List Char) :
    Leaves (fun s => .ok (skipBlank verbose s)) id s (skipBlank verbose s) := by
  cases verbose with
  | false => exact .here
  | true => exact dropBlank_leaves false s

/-- A reader that starts behind blanks leaves what it leaves without them. -/
theorem Leaves.skip {σ : Type} {f : List Char → Except Fault σ} {g : List Char → σ}
    {s rest : List Char} (verbose : Bool) (hf : Leaves f g (skipBlank verbose s) rest) :
    Leaves (fun s => f (skipBlank verbose s)) g s rest :=
  Leaves.bind (skipBlank_leaves verbose s) hf

theorem Leaves.blank {σ : Type} {g : List Char → σ} {s : List Char} (verbose : Bool) :
    Leaves (fun s => .ok (g (skipBlank verbose s))) g s (skipBlank verbose s) :=
  .skip verbose .here

/-- Where a character stands behind the blanks, all that follows stands behind it. -/
theorem dropBlank_append {comment : Bool} {s rest : List Char} {c : Char}
    (h : dropBlank comment s = c :: rest) (t : List Char) :
    dropBlank comment (s ++ t) = c :: (rest ++ t) := by
  fun_induction dropBlank comment s with
  | case1 => cases h
  | case2 d s ih => exact ih h
  | case3 d s hblank ih =>
      rw [List.cons_append, dropBlank, if_pos hblank]
      exact ih h
  | case4 s hblank ih =>
      rw [List.cons_append, dropBlank, if_neg hblank, if_pos rfl]
      exact ih h
  | case5 d s hblank hhash =>
      cases h
      rw [List.cons_append, dropBlank, if_neg hblank, if_neg hhash]

theorem skipBlank_append {verbose : Bool} {s rest : List Char} {c : Char}
    (h : skipBlank verbose s = c :: rest) (t : List Char) :
    skipBlank verbose (s ++ t) = c :: (rest ++ t) := by
  cases verbose with
  | false =>
      rw [skipBlank, if_neg Bool.false_ne_true] at h ⊢
      rw [h, List.cons_append]
  | true => exact dropBlank_append h t

theorem skipBlank_length (verbose : Bool) (s : List Char) :
    (skipBlank verbose s).length ≤ s.length :=
  (skipBlank_leaves verbose s).shorter

theorem skipBlank_nil (verbose : Bool) : skipBlank verbose [] = [] := by
  cases verbose <;> rfl

/-! Escapes. -/

theorem braced_append {verbose comment : Bool} {body s inside rest : List Char}
    (h : braced verbose comment body s = some (inside, rest)) :
    rest.length ≤ s.length ∧
      ∀ t, braced verbose comment body (s ++ t) = some (inside, rest ++ t) := by
  fun_induction braced verbose comment body s with
  | case1 => cases h
  | case2 body c s ih =>
      obtain ⟨hlength, happend⟩ := ih h
      exact ⟨Nat.le_succ_of_le hlength, happend⟩
  | case3 body s =>
      cases h
      simp [braced]
  | case4 body c s hclose hblank ih =>
      obtain ⟨hlength, happend⟩ := ih h
      refine ⟨Nat.le_succ_of_le hlength, fun t => ?_⟩
      rw [List.cons_append, braced, if_neg hclose, if_pos hblank, happend]
  | case5 body c s hclose hblank hhash ih =>
      obtain ⟨hlength, happend⟩ := ih h
      refine ⟨Nat.le_succ_of_le hlength, fun t => ?_⟩
      rw [List.cons_append, braced, if_neg hclose, if_neg hblank, if_pos hhash, happend]
  | case6 body c s hclose hblank hhash ih =>
      obtain ⟨hlength, happend⟩ := ih h
      refine ⟨Nat.le_succ_of_le hlength, fun t => ?_⟩
      rw [List.cons_append, braced, if_neg hclose, if_neg hblank, if_neg hhash, happend]

theorem hexDigits_leaves {verbose : Bool} {count acc code : Nat} {s rest : List Char}
    (h : hexDigits verbose count acc s = .ok (code, rest)) :
    Leaves (hexDigits verbose count acc) (code, ·) s rest := by
  induction count generalizing acc s with
  | zero =>
      cases h
      exact .here
  | succ count ih =>
      cases s with
      | nil => cases h
      | cons c s =>
          rw [hexDigits] at h
          apply Leaves.cons
          simp only [hexDigits]
          cases hvalue : hexValue? c with
          | none => simp [hvalue] at h
          | some d =>
              rw [hvalue] at h
              exact .skip verbose (ih h)

theorem readHex_of_ne {c : Char} (hbrace : c ≠ '\x7b') (verbose : Bool) (count : Nat)
    (s : List Char) : readHex verbose count (c :: s) = (do
      let (code, rest) ← hexDigits verbose count 0 (c :: s)
      match charOfCode? code with
      | none => .error .hexInvalid
      | some c => .ok (.literal c (count = 2), rest)) := by
  simp only [readHex]
  split
  next heq => cases heq
  next heq =>
    cases heq
    exact absurd rfl hbrace
  next => rfl

theorem readHex_leaves {verbose : Bool} {count : Nat} {s rest : List Char} {a : Atom}
    (h : readHex verbose count s = .ok (a, rest)) :
    Leaves (readHex verbose count) (a, ·) s rest := by
  cases s with
  | nil => cases h
  | cons c s =>
      by_cases hbrace : c = '\x7b'
      · subst hbrace
        simp only [readHex] at h
        split at h
        next => cases h
        next => cases h
        next digits mid hne hdigits =>
          obtain ⟨hlength, happend⟩ := braced_append hdigits
          split at h
          next => cases h
          next x hx =>
            cases h
            apply (Leaves.blank verbose).of_append (Nat.le_succ_of_le hlength)
            intro t _
            rw [List.cons_append, readHex, happend]
            simp [hx]
      · rw [readHex_of_ne hbrace] at h
        obtain ⟨⟨code, mid⟩, hmid, h⟩ := exists_of_bind_ok h
        refine Leaves.of_append (.bind (hexDigits_leaves hmid) ?_) (Nat.le_refl _)
          fun t _ => readHex_of_ne hbrace verbose count (s ++ t)
        cases hchar : charOfCode? code with
        | none => simp [hchar] at h
        | some x =>
            simp only [hchar] at h ⊢
            cases h
            exact .here

theorem readProperty_leaves {verbose negated : Bool} {s rest : List Char} {a : Atom}
    (h : readProperty verbose negated s = .ok (a, rest)) :
    Leaves (readProperty verbose negated) (a, ·) s rest := by
  unfold readProperty at h
  split at h
  next => cases h
  next s =>
    split at h
    next => cases h
    next name mid hname =>
      cases h
      obtain ⟨hlength, happend⟩ := braced_append hname
      apply Leaves.here.of_append (Nat.le_succ_of_le hlength)
      intro t _
      rw [List.cons_append, readProperty, happend]
  next => cases h
  next c s hbrace hescape =>
    cases h
    apply (Leaves.blank verbose).of_append (Nat.le_succ _)
    intro t _
    rw [List.cons_append, readProperty]
    · exact hbrace
    · exact hescape

theorem boundaryName_append {verbose comment : Bool} {name s known rest : List Char} {c : Char}
    (h : boundaryName verbose comment name s = (known, c :: rest)) :
    rest.length < s.length ∧
      ∀ t, boundaryName verbose comment name (s ++ t) = (known, c :: rest ++ t) := by
  fun_induction boundaryName verbose comment name s with
  | case1 => cases h
  | case2 name d s ih =>
      obtain ⟨hlength, happend⟩ := ih h
      exact ⟨Nat.lt_succ_of_lt hlength, happend⟩
  | case3 name d s hname ih =>
      obtain ⟨hlength, happend⟩ := ih h
      refine ⟨Nat.lt_succ_of_lt hlength, fun t => ?_⟩
      rw [List.cons_append, boundaryName, if_pos hname, happend]
  | case4 name d s hname hblank ih =>
      obtain ⟨hlength, happend⟩ := ih h
      refine ⟨Nat.lt_succ_of_lt hlength, fun t => ?_⟩
      rw [List.cons_append, boundaryName, if_neg hname, if_pos hblank, happend]
  | case5 name d s hname hblank hhash ih =>
      obtain ⟨hlength, happend⟩ := ih h
      refine ⟨Nat.lt_succ_of_lt hlength, fun t => ?_⟩
      rw [List.cons_append, boundaryName, if_neg hname, if_neg hblank, if_pos hhash, happend]
  | case6 name d s hname hblank hhash =>
      cases h
      refine ⟨Nat.lt_succ_self _, fun t => ?_⟩
      rw [List.cons_append, boundaryName, if_neg hname, if_neg hblank, if_neg hhash]

theorem readBoundary_of_ne {s : List Char} (hbrace : ∀ rest, s ≠ '\x7b' :: rest)
    (verbose : Bool) : readBoundary verbose s = .ok (.assertion .wordBoundary, s) := by
  unfold readBoundary
  split
  next rest => exact absurd rfl (hbrace rest)
  next => rfl

theorem readBoundary_leaves {verbose : Bool} {s rest : List Char} {a : Atom}
    (h : readBoundary verbose s = .ok (a, rest)) :
    Leaves (readBoundary verbose) (a, ·) s rest := by
  by_cases hbrace : ∃ r, s = '\x7b' :: r
  · obtain ⟨s, rfl⟩ := hbrace
    simp only [readBoundary] at h
    split at h
    next => cases h
    next c r hblank =>
      by_cases hchar : isBoundaryChar c
      · simp only [hchar, Bool.not_true, Bool.false_eq_true, if_false] at h
        split at h
        next name after hname =>
          obtain ⟨hlength, happend⟩ := boundaryName_append hname
          have hle := skipBlank_length verbose s
          rw [hblank] at hle
          have hshort : after.length ≤ ('\x7b' :: s).length :=
            Nat.le_of_lt (Nat.lt_of_lt_of_le hlength (Nat.le_succ_of_le hle))
          have happend' (u : List Char) : boundaryName verbose false [] (c :: (r ++ ')' :: u)) =
              (name, '\x7d' :: (after ++ ')' :: u)) := happend _
          split at h
          case h_5 => cases h
          all_goals
            rename_i hknown
            cases h
            refine ⟨?_, hshort, .inl fun u => ?_⟩
            · simp [readBoundary, hblank, hchar, hname, hknown]
            · simp [readBoundary, skipBlank_append hblank, hchar, happend', hknown]
        next => cases h
      · simp only [hchar, Bool.not_false, if_true] at h
        cases h
        refine ⟨?_, Nat.le_refl _, .inl fun u => ?_⟩
        · simp [readBoundary, hblank, hchar]
        · simp [readBoundary, skipBlank_append hblank, hchar]
  · have hne : ∀ r, s ≠ '\x7b' :: r := fun r hr => hbrace ⟨r, hr⟩
    rw [readBoundary_of_ne hne] at h
    cases h
    refine ⟨readBoundary_of_ne hne verbose, Nat.le_refl _, .inl fun u => ?_⟩
    apply readBoundary_of_ne
    intro r
    cases s with
    | nil => simp
    | cons c s => simpa using fun hc : c = '\x7b' => absurd rfl (hc ▸ hne s)

theorem readEscape_leaves {verbose : Bool} {s rest : List Char} {a : Atom}
    (h : readEscape verbose s = .ok (a, rest)) :
    Leaves (readEscape verbose) (a, ·) s rest := by
  cases s with
  | nil => cases h
  | cons c s =>
      apply Leaves.cons
      simp only [readEscape] at h ⊢
      by_cases hdigit : c.isDigit
      · rw [if_pos hdigit] at h
        cases h
      · simp only [if_neg hdigit] at h ⊢
        split at h
        case h_1 | h_2 | h_3 => exact .skip verbose (readHex_leaves h)
        case h_4 | h_5 => exact .skip verbose (readProperty_leaves h)
        case h_20 => exact readBoundary_leaves h
        case h_24 =>
          by_cases hescape : isEscapable c
          · simp only [if_pos hescape] at h ⊢
            cases h
            exact .here
          · rw [if_neg hescape] at h
            cases h
        all_goals
          cases h
          exact .here

/-! Bracketed classes. -/

theorem not_mem_of_asciiClass? {name : List Char} {ranges : List (Nat × Nat)}
    (h : asciiClass? name = some ranges) : ')' ∉ name := by
  unfold asciiClass? at h
  split at h
  case h_15 => cases h
  all_goals
    rename_i hname
    have hchars := congrArg String.toList hname
    rw [String.toList_ofList] at hchars
    rw [hchars]
    decide

/-- An ASCII class behind its colon and the sign of its negation. -/
def readAsciiName? (negated : Bool) (s : List Char) : Option (ClassExpr × List Char) :=
  match s.dropWhile (· ≠ ':') with
  | ':' :: ']' :: after =>
    (asciiClass? (s.takeWhile (· ≠ ':'))).map fun ranges => (.ascii ranges negated, after)
  | _ => none

theorem readAsciiClass?_negated (s : List Char) :
    readAsciiClass? (':' :: '^' :: s) = readAsciiName? true s := rfl

theorem readAsciiClass?_plain {s : List Char} (hs : s.head? ≠ some '^') :
    readAsciiClass? (':' :: s) = readAsciiName? false s := by
  rcases s with _ | ⟨c, s⟩
  · rfl
  · have hc : c ≠ '^' := by simpa using hs
    simp only [readAsciiClass?, List.cons.injEq, hc, false_and, imp_self, implies_true]
    rfl

theorem readAsciiClass?_of_ne {s : List Char} (hs : s.head? ≠ some ':') :
    readAsciiClass? s = none := by
  unfold readAsciiClass?
  split
  next => exact absurd rfl hs
  next => rfl

theorem head?_append_ne {s t : List Char} {c : Char} (hs : s.head? ≠ some c) (ht : Closing t)
    (hc : c ≠ ')') : (s ++ t).head? ≠ some c := by
  cases s with
  | nil => exact ht.head_ne hc
  | cons d s => exact hs

theorem span_append {p : Char → Bool} {s rest : List Char} {c : Char}
    (h : s.dropWhile p = c :: rest) (t : List Char) :
    (s ++ t).takeWhile p = s.takeWhile p ∧ (s ++ t).dropWhile p = c :: (rest ++ t) := by
  induction s with
  | nil => cases h
  | cons d s ih =>
      by_cases hd : p d = true
      · rw [List.dropWhile_cons_of_pos hd] at h
        simp [hd, ih h]
      · rw [List.dropWhile_cons_of_neg hd] at h
        cases h
        simp [hd]

theorem readAsciiName?_append {negated : Bool} {s rest : List Char} {item : ClassExpr}
    (h : readAsciiName? negated s = some (item, rest)) :
    rest.length ≤ s.length ∧ ∀ t, readAsciiName? negated (s ++ t) = some (item, rest ++ t) := by
  unfold readAsciiName? at h
  split at h
  next after hafter =>
    have hlength := List.length_dropWhile_le (· ≠ ':') s
    rw [hafter] at hlength
    obtain ⟨ranges, hranges, hitem⟩ := Option.map_eq_some_iff.mp h
    cases hitem
    refine ⟨?_, fun t => ?_⟩
    · simp only [List.length_cons] at hlength
      omega
    · obtain ⟨hname, htail⟩ := span_append hafter t
      simp only [readAsciiName?, hname, htail, List.cons_append, hranges, Option.map_some]
  next => cases h

theorem readAsciiName?_none {negated : Bool} {s t : List Char}
    (h : readAsciiName? negated s = none) (ht : Closing t) :
    readAsciiName? negated (s ++ t) = none := by
  unfold readAsciiName?
  split
  next after hafter =>
    rw [Option.map_eq_none_iff]
    cases hdrop : s.dropWhile (· ≠ ':') with
    | nil =>
        have hall := List.dropWhile_eq_nil_iff.mp hdrop
        rw [List.takeWhile_append_of_pos hall]
        rcases ht with rfl | ⟨u, rfl⟩
        · rw [List.append_nil, hdrop] at hafter
          cases hafter
        · cases hclass : asciiClass? (s ++ (')' :: u).takeWhile (· ≠ ':')) with
          | none => rfl
          | some ranges => exact absurd (by simp) (not_mem_of_asciiClass? hclass)
    | cons c rest =>
        obtain ⟨hname, htail⟩ := span_append hdrop t
        rw [htail] at hafter
        rw [hname]
        obtain ⟨rfl, hrest⟩ := List.cons.inj hafter
        cases rest with
        | nil => exact absurd (by rw [← List.nil_append t, hrest]; rfl) (ht.head_ne (by decide))
        | cons d rest =>
            obtain ⟨rfl, -⟩ := List.cons.inj hrest
            simpa only [readAsciiName?, hdrop, Option.map_eq_none_iff] using h
  next => rfl

theorem readAsciiClass?_append {s rest : List Char} {item : ClassExpr}
    (h : readAsciiClass? s = some (item, rest)) :
    rest.length ≤ s.length ∧
      ∀ t, Closing t → readAsciiClass? (s ++ t) = some (item, rest ++ t) := by
  by_cases hcolon : s.head? = some ':'
  · obtain ⟨s, rfl⟩ := List.head?_eq_some_iff.mp hcolon
    by_cases hsign : s.head? = some '^'
    · obtain ⟨s, rfl⟩ := List.head?_eq_some_iff.mp hsign
      rw [readAsciiClass?_negated] at h
      obtain ⟨hlength, happend⟩ := readAsciiName?_append h
      exact ⟨Nat.le_succ_of_le (Nat.le_succ_of_le hlength), fun t _ => happend t⟩
    · rw [readAsciiClass?_plain hsign] at h
      obtain ⟨hlength, happend⟩ := readAsciiName?_append h
      refine ⟨Nat.le_succ_of_le hlength, fun t ht => ?_⟩
      rw [List.cons_append, readAsciiClass?_plain (head?_append_ne hsign ht (by decide)), happend]
  · rw [readAsciiClass?_of_ne hcolon] at h
    cases h

theorem readAsciiClass?_none {s t : List Char} (h : readAsciiClass? s = none) (ht : Closing t) :
    readAsciiClass? (s ++ t) = none := by
  by_cases hcolon : s.head? = some ':'
  · obtain ⟨s, rfl⟩ := List.head?_eq_some_iff.mp hcolon
    by_cases hsign : s.head? = some '^'
    · obtain ⟨s, rfl⟩ := List.head?_eq_some_iff.mp hsign
      rw [readAsciiClass?_negated] at h
      exact readAsciiName?_none h ht
    · rw [readAsciiClass?_plain hsign] at h
      rw [List.cons_append, readAsciiClass?_plain (head?_append_ne hsign ht (by decide))]
      exact readAsciiName?_none h ht
  · exact readAsciiClass?_of_ne (head?_append_ne hcolon ht (by decide))

theorem leadingHyphens_of_ne {s : List Char} (hs : s.head? ≠ some '-') (verbose : Bool)
    (fuel : Nat) : leadingHyphens verbose fuel s = ([], s) := by
  unfold leadingHyphens
  split
  next => exact absurd rfl hs
  next => rfl

/-- The length of the text is fuel enough for its hyphens. -/
theorem leadingHyphens_fuel (verbose : Bool) {fuel fuel' : Nat} {s : List Char}
    (hfuel : s.length ≤ fuel) (hfuel' : s.length ≤ fuel') :
    leadingHyphens verbose fuel s = leadingHyphens verbose fuel' s := by
  induction fuel generalizing fuel' s with
  | zero =>
      have hs : s = [] := List.eq_nil_of_length_eq_zero (Nat.le_zero.mp hfuel)
      subst hs
      rw [leadingHyphens_of_ne (by simp), leadingHyphens_of_ne (by simp)]
  | succ fuel ih =>
      by_cases hhyphen : s.head? = some '-'
      · obtain ⟨s, rfl⟩ := List.head?_eq_some_iff.mp hhyphen
        cases fuel' with
        | zero => cases hfuel'
        | succ fuel' =>
            rw [List.length_cons] at hfuel hfuel'
            have hlength := skipBlank_length verbose s
            have hleft : (skipBlank verbose s).length ≤ fuel := by omega
            have hright : (skipBlank verbose s).length ≤ fuel' := by omega
            rw [leadingHyphens, leadingHyphens, ih hleft hright]
      · rw [leadingHyphens_of_ne hhyphen, leadingHyphens_of_ne hhyphen]

theorem leadingHyphens_cons (verbose : Bool) (s : List Char) :
    leadingHyphens verbose ('-' :: s).length ('-' :: s) =
      (.char '-' :: (leadingHyphens verbose (skipBlank verbose s).length (skipBlank verbose s)).1,
        (leadingHyphens verbose (skipBlank verbose s).length (skipBlank verbose s)).2) := by
  rw [List.length_cons, leadingHyphens,
    leadingHyphens_fuel verbose (skipBlank_length verbose s) (Nat.le_refl _)]

theorem leadingHyphens_leaves {verbose : Bool} {s rest : List Char} {items : List ClassExpr}
    (h : leadingHyphens verbose s.length s = (items, rest)) :
    Leaves (fun s => .ok (leadingHyphens verbose s.length s)) (items, ·) s rest := by
  induction hn : s.length using Nat.strong_induction_on generalizing s items with
  | _ n ih =>
      subst hn
      by_cases hhyphen : s.head? = some '-'
      · obtain ⟨s, rfl⟩ := List.head?_eq_some_iff.mp hhyphen
        rw [leadingHyphens_cons] at h
        cases h
        apply Leaves.cons
        simp only [leadingHyphens_cons]
        have hlength := skipBlank_length verbose s
        have hrest := ih _ (Nat.lt_succ_of_le hlength) rfl rfl
        exact .skip verbose (hrest.map fun found => (ClassExpr.char '-' :: found.1, found.2))
      · rw [leadingHyphens_of_ne hhyphen] at h
        cases h
        apply Leaves.here.of_append (Nat.le_refl _)
        intro t ht
        rw [leadingHyphens_of_ne (head?_append_ne hhyphen ht (by decide))]

/-- The start of a bracketed class behind the sign of its negation. -/
def openItems (verbose negated : Bool) (s : List Char) :
    Except Fault (Bool × List ClassExpr × List Char) :=
  let (items, s) := leadingHyphens verbose s.length s
  match items, s with
  | _, [] => .error .classUnclosed
  | [], ']' :: rest =>
    match skipBlank verbose rest with
    | [] => .error .classUnclosed
    | s => .ok (negated, [.char ']'], s)
  | items, s => .ok (negated, items.reverse, s)

theorem openBracket_negated {verbose : Bool} {s rest : List Char}
    (hs : skipBlank verbose s = '^' :: rest) :
    openBracket verbose s = openItems verbose true (skipBlank verbose rest) := by
  unfold openBracket
  rw [hs]
  rfl

theorem openBracket_plain {verbose : Bool} {s : List Char}
    (hs : (skipBlank verbose s).head? ≠ some '^') :
    openBracket verbose s = openItems verbose false (skipBlank verbose s) := by
  unfold openBracket
  generalize skipBlank verbose s = r at hs
  rcases r with _ | ⟨c, r⟩
  · rfl
  · have hc : c ≠ '^' := by simpa using hs
    simp only [List.cons.injEq, hc, false_and, imp_self, implies_true]
    rfl

theorem openItems_leaves {verbose negated negated' : Bool} {s rest : List Char}
    {items : List ClassExpr} (h : openItems verbose negated s = .ok (negated', items, rest)) :
    Leaves (openItems verbose negated) (negated', items, ·) s rest := by
  rcases hhyphens : leadingHyphens verbose s.length s with ⟨hyphens, mid⟩
  have hmid := leadingHyphens_leaves hhyphens
  have hlength := hmid.shorter
  have hopen {t : List Char} (hne : mid ≠ []) (ht : Closing t) :
      leadingHyphens verbose (s ++ t).length (s ++ t) = (hyphens, mid ++ t) :=
    Except.ok.inj (hmid.kept hne ht)
  simp only [openItems, hhyphens] at h
  split at h
  next => cases h
  next mid =>
    split at h
    next => cases h
    next r hne =>
      cases h
      cases hblank : skipBlank verbose mid with
      | nil => exact absurd hblank hne
      | cons c r =>
          have hshort := skipBlank_length verbose mid
          rw [hblank] at hshort
          apply Leaves.here.of_append
          · simp only [List.length_cons] at hlength hshort ⊢
            omega
          · intro t ht
            rw [openItems, hopen (List.cons_ne_nil _ _) ht]
            simp [skipBlank_append hblank t]
  next mid hne hbracket =>
    cases h
    apply Leaves.here.of_append hlength
    intro t ht
    rw [openItems, hopen hne ht]
    cases rest with
    | nil => exact absurd rfl hne
    | cons c r =>
        cases hyphens with
        | nil =>
            have hc : c ≠ ']' := fun hc => hbracket r rfl (hc ▸ rfl)
            simp [hc]
        | cons item hyphens => simp

theorem openBracket_leaves {verbose negated : Bool} {s rest : List Char} {items : List ClassExpr}
    (h : openBracket verbose s = .ok (negated, items, rest)) :
    Leaves (openBracket verbose) (negated, items, ·) s rest := by
  by_cases hsign : (skipBlank verbose s).head? = some '^'
  · obtain ⟨mid, hmid⟩ := List.head?_eq_some_iff.mp hsign
    rw [openBracket_negated hmid] at h
    have hlength := skipBlank_length verbose s
    rw [hmid] at hlength
    apply (Leaves.skip verbose (openItems_leaves h)).of_append (Nat.le_of_succ_le hlength)
    intro t _
    exact openBracket_negated (skipBlank_append hmid t)
  · rw [openBracket_plain hsign] at h
    cases hblank : skipBlank verbose s with
    | nil =>
        rw [hblank] at h
        cases h
    | cons c r =>
        have hlength := skipBlank_length verbose s
        rw [hblank] at h hlength hsign
        apply (openItems_leaves h).of_append hlength
        intro t _
        have happend := skipBlank_append hblank t
        rw [openBracket_plain (by rw [happend]; exact hsign), happend, List.cons_append]

theorem readClassAtom_leaves {verbose : Bool} {s rest : List Char} {c : Char} {a : Atom}
    (h : readClassAtom verbose (c :: s) = .ok (a, rest)) :
    Leaves (fun s => readClassAtom verbose (c :: s)) (a, ·) s rest := by
  by_cases hescape : c = '\\'
  · subst hescape
    exact readEscape_leaves h
  · have hliteral (s : List Char) : readClassAtom verbose (c :: s) = .ok (.literal c false, s) := by
      rw [readClassAtom]
      exact hescape
    rw [hliteral] at h
    cases h
    exact Leaves.here.of_append (Nat.le_refl _) fun t _ => hliteral (s ++ t)

theorem dropWhile_closing {t : List Char} (ht : Closing t) : t.dropWhile isWhitespace = t := by
  rcases ht with rfl | ⟨u, rfl⟩
  · rfl
  · exact List.dropWhile_cons_of_neg (by simp [isWhitespace_parenthesis])

theorem dropWhile_append_closing {s t : List Char} (h : s.dropWhile isWhitespace = [])
    (ht : Closing t) : (s ++ t).dropWhile isWhitespace = t := by
  rw [List.dropWhile_append, h, List.isEmpty_nil, if_pos rfl, dropWhile_closing ht]

/-- What is seen past the blanks, or the first of them where nothing is. -/
def firstPast (s past : List Char) : Option Char :=
  match past with
  | [] => s.head?
  | c :: _ => some c

/-- The text past the blanks, one `#` and the blanks behind it. -/
def pastBlank (s : List Char) : List Char :=
  match s.dropWhile isWhitespace with
  | '#' :: rest => rest.dropWhile isWhitespace
  | past => past

theorem peekPastBlank_verbose (s : List Char) :
    peekPastBlank true s = firstPast s (pastBlank s) := rfl

theorem pastBlank_of_ne {s rest : List Char} {d : Char}
    (h : s.dropWhile isWhitespace = d :: rest) (hd : d ≠ '#') : pastBlank s = d :: rest := by
  simp [pastBlank, h, hd]

theorem pastBlank_of_hash {s rest : List Char} (h : s.dropWhile isWhitespace = '#' :: rest) :
    pastBlank s = rest.dropWhile isWhitespace := by
  simp [pastBlank, h]

/-- Where nothing is left past the blanks, it is a blank or a `#` that is seen. -/
theorem head_of_pastBlank {s : List Char} {c : Char} (h : pastBlank s = [])
    (hc : s.head? = some c) : isWhitespace c = true ∨ c = '#' := by
  obtain ⟨s, rfl⟩ := List.head?_eq_some_iff.mp hc
  by_cases hblank : isWhitespace c = true
  · exact .inl hblank
  · right
    by_contra hhash
    rw [pastBlank_of_ne (List.dropWhile_cons_of_neg hblank) hhash] at h
    cases h

theorem pastBlank_append (s u : List Char) :
    (pastBlank s = [] ∧ pastBlank (s ++ ')' :: u) = ')' :: u) ∨
      ∃ d r, pastBlank s = d :: r ∧ pastBlank (s ++ ')' :: u) = d :: (r ++ ')' :: u) := by
  have hclosing : Closing (')' :: u) := .inr ⟨u, rfl⟩
  cases hdrop : s.dropWhile isWhitespace with
  | nil =>
      left
      constructor
      · simp [pastBlank, hdrop]
      · exact pastBlank_of_ne (dropWhile_append_closing hdrop hclosing) (by decide)
  | cons d r =>
      have happend := (span_append hdrop (')' :: u)).2
      by_cases hd : d = '#'
      · subst hd
        rw [pastBlank_of_hash hdrop, pastBlank_of_hash happend]
        cases hrest : r.dropWhile isWhitespace with
        | nil => exact .inl ⟨rfl, dropWhile_append_closing hrest hclosing⟩
        | cons e r' => exact .inr ⟨e, r', rfl, (span_append hrest _).2⟩
      · exact .inr ⟨d, r, pastBlank_of_ne hdrop hd, pastBlank_of_ne happend hd⟩

/-- A character that is no blank stays the one that is seen, or stays unseen. -/
theorem peekPastBlank_append {verbose : Bool} {s t : List Char} {c : Char} (ht : Closing t)
    (hblank : isWhitespace c = false) (hclose : c ≠ ')') (hhash : c ≠ '#') :
    peekPastBlank verbose (s ++ t) = some c ↔ peekPastBlank verbose s = some c := by
  cases verbose with
  | false =>
      cases s with
      | nil => exact iff_of_false (ht.head_ne hclose) (by simp [peekPastBlank])
      | cons d s => exact Iff.rfl
  | true =>
      rw [peekPastBlank_verbose, peekPastBlank_verbose]
      rcases ht with rfl | ⟨u, rfl⟩
      · rw [List.append_nil]
      · rcases pastBlank_append s u with ⟨hempty, happend⟩ | ⟨d, r, hpast, happend⟩
        · rw [hempty, happend]
          apply iff_of_false
          · simpa [firstPast] using Ne.symm hclose
          · intro hseen
            rcases head_of_pastBlank hempty hseen with hc | hc
            · exact Bool.false_ne_true (hblank.symm.trans hc)
            · exact hhash hc
        · rw [hpast, happend]
          exact Iff.rfl

/-- The range from one atom to the one that was read behind the hyphen. -/
def closeRange (first : Atom) (read : Atom × List Char) : Except Fault (ClassExpr × List Char) := do
  let (last, rest) := read
  let first ← first.toRangeEnd
  let last ← last.toRangeEnd
  if first ≤ last then return (.range first last, rest) else .error .classRangeReversed

theorem closeRange_leaves {first last : Atom} {s rest : List Char} {item : ClassExpr}
    (h : closeRange first (last, s) = .ok (item, rest)) :
    Leaves (fun s => closeRange first (last, s)) (item, ·) s rest := by
  obtain ⟨a, ha, h⟩ := exists_of_bind_ok h
  obtain ⟨b, hb, h⟩ := exists_of_bind_ok h
  by_cases hle : a ≤ b
  · rw [if_pos hle] at h
    cases h
    apply Leaves.here.of_append (Nat.le_refl _)
    intro t _
    simp only [closeRange, ha, hb]
    exact if_pos hle
  · rw [if_neg hle] at h
    cases h

/-- What follows the first character of a range, behind the blanks. -/
def readRangeEnd (verbose : Bool) (first : Atom) (s : List Char) :
    Except Fault (ClassExpr × List Char) :=
  match s with
  | [] => .error .classUnclosed
  | '-' :: behind =>
    let peeked := peekPastBlank verbose behind
    if peeked = some ']' || peeked = some '-' then
      return (← first.toClassItem, s)
    else
      match skipBlank verbose behind with
      | [] => .error .classUnclosed
      | rest => readClassAtom verbose rest >>= closeRange first
  | rest => return (← first.toClassItem, rest)

theorem readClassRange_eq (verbose : Bool) (s : List Char) :
    readClassRange verbose s = (do
      let (first, rest) ← readClassAtom verbose s
      readRangeEnd verbose first (skipBlank verbose rest)) := by
  unfold readClassRange readRangeEnd
  rfl

theorem readRangeEnd_leaves {verbose : Bool} {first : Atom} {s rest : List Char}
    {item : ClassExpr} (h : readRangeEnd verbose first s = .ok (item, rest)) :
    Leaves (readRangeEnd verbose first) (item, ·) s rest := by
  unfold readRangeEnd at h
  split at h
  next => cases h
  next behind =>
    have hpeek {t : List Char} (ht : Closing t) :
        (peekPastBlank verbose (behind ++ t) = some ']' ∨
          peekPastBlank verbose (behind ++ t) = some '-') ↔
        (peekPastBlank verbose behind = some ']' ∨ peekPastBlank verbose behind = some '-') := by
      rw [peekPastBlank_append ht (by decide +kernel) (by decide) (by decide),
        peekPastBlank_append ht (by decide +kernel) (by decide) (by decide)]
    by_cases hstops : peekPastBlank verbose behind = some ']' ∨
        peekPastBlank verbose behind = some '-'
    · simp only [Bool.or_eq_true, decide_eq_true_eq, hstops, if_true] at h
      obtain ⟨item', hitem, h⟩ := exists_of_bind_ok h
      cases h
      apply Leaves.here.of_append (Nat.le_refl _)
      intro t ht
      simp only [readRangeEnd, List.cons_append, Bool.or_eq_true, decide_eq_true_eq,
        (hpeek ht).mpr hstops, if_true, hitem]
      rfl
    · simp only [Bool.or_eq_true, decide_eq_true_eq, hstops, if_false] at h
      split at h
      next => cases h
      next r hne =>
        cases hskip : skipBlank verbose behind with
        | nil => exact absurd hskip hne
        | cons d r =>
            have hlength := skipBlank_length verbose behind
            rw [hskip] at h hlength
            obtain ⟨⟨last, mid⟩, hlast, h⟩ := exists_of_bind_ok h
            refine ((readClassAtom_leaves hlast).cons.bind (closeRange_leaves h)).of_append
              (Nat.le_succ_of_le hlength) fun t ht => ?_
            simp only [readRangeEnd, List.cons_append, Bool.or_eq_true, decide_eq_true_eq,
              mt (hpeek ht).mp hstops, if_false, skipBlank_append hskip t]
  next hne hhyphen =>
    obtain ⟨item', hitem, h⟩ := exists_of_bind_ok h
    cases h
    apply Leaves.here.of_append (Nat.le_refl _)
    intro t ht
    cases s with
    | nil => exact absurd rfl hne
    | cons c r =>
        have hc : c ≠ '-' := fun hc => hhyphen r (hc ▸ rfl)
        simp [readRangeEnd, hc, hitem]

theorem readClassRange_leaves {verbose : Bool} {s rest : List Char} {c : Char} {item : ClassExpr}
    (h : readClassRange verbose (c :: s) = .ok (item, rest)) :
    Leaves (fun s => readClassRange verbose (c :: s)) (item, ·) s rest := by
  rw [readClassRange_eq] at h
  obtain ⟨⟨first, mid⟩, hfirst, h⟩ := exists_of_bind_ok h
  refine Leaves.of_append (.bind (readClassAtom_leaves hfirst) ?_) (Nat.le_refl _)
    fun t _ => readClassRange_eq verbose (c :: (s ++ t))
  exact .skip verbose (readRangeEnd_leaves h)

/-- A text that neither opens nor closes a bracket nor starts with an operator. -/
def StartsPlain (s : List Char) : Prop :=
  ∃ c r, s = c :: r ∧ c ≠ '[' ∧ c ≠ ']' ∧ (c = '&' ∨ c = '-' ∨ c = '~' → r.head? ≠ some c)

theorem startsPlain_of_ne {c : Char} {r : List Char} (hopens : ∀ r', c :: r ≠ '[' :: r')
    (hcloses : ∀ r', c :: r ≠ ']' :: r') (hand : ∀ r', c :: r ≠ '&' :: '&' :: r')
    (hhyphen : ∀ r', c :: r ≠ '-' :: '-' :: r') (htilde : ∀ r', c :: r ≠ '~' :: '~' :: r') :
    StartsPlain (c :: r) := by
  refine ⟨c, r, rfl, fun hc => hopens r (hc ▸ rfl), fun hc => hcloses r (hc ▸ rfl), ?_⟩
  rintro hc hr
  obtain ⟨r, rfl⟩ := List.head?_eq_some_iff.mp hr
  rcases hc with rfl | rfl | rfl
  · exact hand r rfl
  · exact hhyphen r rfl
  · exact htilde r rfl

theorem StartsPlain.append {s t : List Char} (hs : StartsPlain s) (ht : Closing t) :
    StartsPlain (s ++ t) := by
  obtain ⟨c, r, rfl, hopens, hcloses, hoperator⟩ := hs
  refine ⟨c, r ++ t, rfl, hopens, hcloses, fun hc => head?_append_ne (hoperator hc) ht ?_⟩
  rintro rfl
  revert hc
  decide

variable {verbose negated negated' : Bool} {s rest : List Char} {items outer : List ClassExpr}
  {stack : List ClassFrame} {body : ClassExpr}

theorem readClass_of_plain (hs : StartsPlain (skipBlank verbose s)) (fuel : Nat) :
    readClass verbose (fuel + 1) s items stack =
      readClassRange verbose (skipBlank verbose s) >>= fun read =>
        readClass verbose fuel read.2 (read.1 :: items) stack := by
  obtain ⟨c, r, hc, hopens, hcloses, hoperator⟩ := hs
  rw [readClass, hc]
  split
  next heq => cases heq
  next heq =>
    cases heq
    exact absurd rfl hopens
  next heq =>
    cases heq
    exact absurd rfl hcloses
  next heq =>
    cases heq
    exact absurd rfl (hoperator (by decide))
  next heq =>
    cases heq
    exact absurd rfl (hoperator (by decide))
  next heq =>
    cases heq
    exact absurd rfl (hoperator (by decide))
  next => rfl

theorem readClass_nil (verbose : Bool) (fuel : Nat) (items : List ClassExpr)
    (stack : List ClassFrame) : readClass verbose fuel [] items stack = .error .classUnclosed := by
  cases fuel with
  | zero => rfl
  | succ fuel => rw [readClass, skipBlank_nil]

theorem ne_nil_of_readClass {fuel : Nat} {found : Bool × ClassExpr × List Char}
    (h : readClass verbose fuel s items stack = .ok found) : s ≠ [] := by
  rintro rfl
  rw [readClass_nil] at h
  cases h

/-- A step that goes on with a shorter text, and has left all that follows it, leaves what the
reader leaves of that text with one fuel less. -/
theorem Leaves.readClass_step {k : Nat} {mid : List Char} {items' : List ClassExpr}
    {stack' : List ClassFrame} {found : List Char → Bool × ClassExpr × List Char}
    (hmid : Leaves (fun m => readClass verbose (m.length + (s.length + k - 1 - mid.length)) m
      items' stack') found mid rest)
    (hshort : mid.length < s.length)
    (happend : ∀ t, Closing t → ∀ fuel, readClass verbose (fuel + 1) (s ++ t) items stack =
      readClass verbose fuel (mid ++ t) items' stack') :
    Leaves (fun s => readClass verbose (s.length + k) s items stack) found s rest := by
  apply hmid.of_append (Nat.le_of_lt hshort)
  intro t ht
  have hlength : (s ++ t).length + k =
      (mid ++ t).length + (s.length + k - 1 - mid.length) + 1 := by
    rw [List.length_append, List.length_append]
    omega
  rw [hlength]
  exact happend t ht _

/-- The reader of a class leaves what follows it, however much fuel it has. -/
theorem readClass_leaves {fuel k : Nat}
    (h : readClass verbose fuel s items stack = .ok (negated, body, rest))
    (hk : fuel ≤ s.length + k) :
    Leaves (fun s => readClass verbose (s.length + k) s items stack) (negated, body, ·) s rest := by
  induction fuel generalizing s items stack k with
  | zero => cases h
  | succ fuel ih =>
      have hnext {mid : List Char} {items' : List ClassExpr} {stack' : List ClassFrame}
          (h : readClass verbose fuel mid items' stack' = .ok (negated, body, rest))
          (hshort : mid.length < s.length)
          (happend : ∀ t, Closing t → ∀ fuel, readClass verbose (fuel + 1) (s ++ t) items stack =
            readClass verbose fuel (mid ++ t) items' stack') :
          Leaves (fun s => readClass verbose (s.length + k) s items stack)
            (negated, body, ·) s rest := by
        have hfuel : fuel ≤ mid.length + (s.length + k - 1 - mid.length) := by omega
        exact (ih h hfuel).readClass_step hshort happend
      have hlength := skipBlank_length verbose s
      rw [readClass] at h
      split at h
      next => cases h
      next r hblank =>
        rw [hblank] at hlength
        have happend := skipBlank_append hblank
        split at h
        next item mid hclass =>
          obtain ⟨hshort, hafter⟩ := readAsciiClass?_append hclass
          apply hnext h (Nat.lt_of_le_of_lt hshort hlength)
          intro t ht fuel
          simp only [readClass, happend t, hafter t ht]
        next hclass =>
          obtain ⟨⟨negated', inner, mid⟩, hopen, h⟩ := exists_of_bind_ok h
          have hleaves := openBracket_leaves hopen
          apply hnext h (Nat.lt_of_le_of_lt hleaves.shorter hlength)
          intro t ht fuel
          rw [readClass, happend t]
          simp only [readAsciiClass?_none hclass ht, hleaves.kept (ne_nil_of_readClass h) ht]
          rfl
      next r hblank =>
        rw [hblank] at hlength
        have happend := skipBlank_append hblank
        rcases hclose : closeOperator (.ofItems items.reverse) stack with ⟨inner, stack'⟩
        simp only [hclose] at h
        split at h
        next =>
          cases h
          apply Leaves.here.of_append (Nat.le_of_lt hlength)
          intro t ht
          have hfuel : (s ++ t).length + k = ((s ++ t).length + k - 1) + 1 := by
            rw [List.length_append]
            simp only [List.length_cons] at hlength
            omega
          rw [hfuel, readClass, happend t]
          simp only [hclose]
          rfl
        next outer negated' stack' hne =>
          apply hnext h hlength
          intro t ht fuel
          rw [readClass, happend t]
          simp only [hclose]
        next => cases h
      case h_4 | h_5 | h_6 =>
        rename_i r hblank
        rw [hblank] at hlength
        have happend := skipBlank_append hblank
        apply hnext h (Nat.lt_of_succ_lt hlength)
        intro t ht fuel
        rw [readClass, happend t]
        rfl
      next hne hopens hcloses hand hhyphen htilde =>
        obtain ⟨⟨item, mid⟩, hitem, h⟩ := exists_of_bind_ok h
        cases hblank : skipBlank verbose s with
        | nil => exact absurd hblank hne
        | cons c r =>
            rw [hblank] at hlength hitem hopens hcloses hand hhyphen htilde
            have happend := skipBlank_append hblank
            have hplain := startsPlain_of_ne hopens hcloses hand hhyphen htilde
            have hleaves := readClassRange_leaves hitem
            apply hnext h (Nat.lt_of_le_of_lt hleaves.shorter hlength)
            intro t ht fuel
            have hstays : StartsPlain (skipBlank verbose (s ++ t)) := by
              rw [happend t]
              exact hplain.append ht
            rw [readClass_of_plain hstays, happend t, hleaves.kept (ne_nil_of_readClass h) ht]
            rfl

end Docket.Regex
