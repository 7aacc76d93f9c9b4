import Docket.Proofs.Following
import Docket.Regex.Compile

/-!
A pattern between anchors.  Put into a group behind the anchor of the start, with or without that
of the end behind the group, a pattern is read as it is alone, but two levels deeper and with a
state more for each anchor.  If it ends in a comment, however, the comment goes on over the
parenthesis of the group.
-/

namespace Docket.Regex

open Docket.Unicode (isWhitespace)

theorem ok_bind {α β : Type} (a : α) (f : α → Except Fault β) : (Except.ok a >>= f) = f a := rfl

/-! Flags, names and counts. -/

theorem readFlags_append {enable dangling : Bool} {changes found : FlagChanges} {c : Char}
    {s rest : List Char} (h : readFlags enable dangling changes s = .ok (found, c, rest)) :
    rest.length ≤ s.length ∧
      ∀ t, readFlags enable dangling changes (s ++ t) = .ok (found, c, rest ++ t) := by
  induction s generalizing enable dangling changes with
  | nil => cases h
  | cons d s ih =>
      have hnext {enable dangling : Bool} {changes : FlagChanges}
          (h : readFlags enable dangling changes s = .ok (found, c, rest)) :
          rest.length ≤ (d :: s).length ∧
            ∀ t, readFlags enable dangling changes (s ++ t) = .ok (found, c, rest ++ t) :=
        ⟨Nat.le_succ_of_le (ih h).1, (ih h).2⟩
      simp only [List.cons_append, readFlags] at h ⊢
      by_cases hend : (decide (d = ':') || decide (d = ')')) = true
      · simp only [if_pos hend] at h ⊢
        split at h
        next => cases h
        next hdangling =>
          cases h
          exact ⟨Nat.le_succ _, fun t => if_neg hdangling⟩
      · simp only [if_neg hend] at h ⊢
        by_cases hminus : d = '-'
        · simp only [if_pos hminus] at h ⊢
          split at h
          next henable =>
            simp only [if_pos henable]
            exact hnext h
          next => cases h
        · simp only [if_neg hminus] at h ⊢
          cases hflag : flagOfLetter? d with
          | none => simp [hflag] at h
          | some flag =>
              simp only [hflag] at h ⊢
              split at h
              next => cases h
              next hnew =>
                simp only [if_neg hnew]
                exact hnext h

theorem readName_append {name found s rest : List Char}
    (h : readName name s = .ok (found, rest)) :
    rest.length ≤ s.length ∧ ∀ t, readName name (s ++ t) = .ok (found, rest ++ t) := by
  fun_induction readName name s with
  | case1 => cases h
  | case2 => cases h
  | case3 name s hname =>
      cases h
      refine ⟨Nat.le_succ _, fun t => ?_⟩
      rw [List.cons_append, readName, if_pos rfl, if_neg hname]
  | case4 name d s hclose hchar ih =>
      obtain ⟨hlength, happend⟩ := ih h
      refine ⟨Nat.le_succ_of_le hlength, fun t => ?_⟩
      rw [List.cons_append, readName, if_neg hclose, if_pos hchar, happend]
  | case5 => cases h

theorem countDigits_append {verbose comment : Bool} {acc count : Option Nat} {s rest : List Char}
    {c : Char} (h : countDigits verbose comment acc s = (count, c :: rest)) :
    rest.length < s.length ∧
      ∀ t, countDigits verbose comment acc (s ++ t) = (count, c :: rest ++ t) := by
  fun_induction countDigits verbose comment acc s with
  | case1 => cases h
  | case2 acc d s ih =>
      obtain ⟨hlength, happend⟩ := ih h
      exact ⟨Nat.lt_succ_of_lt hlength, happend⟩
  | case3 acc d s hdigit ih =>
      obtain ⟨hlength, happend⟩ := ih h
      refine ⟨Nat.lt_succ_of_lt hlength, fun t => ?_⟩
      rw [List.cons_append, countDigits, if_pos hdigit, happend]
  | case4 acc d s hdigit hblank ih =>
      obtain ⟨hlength, happend⟩ := ih h
      refine ⟨Nat.lt_succ_of_lt hlength, fun t => ?_⟩
      rw [List.cons_append, countDigits, if_neg hdigit, if_pos hblank, happend]
  | case5 acc d s hdigit hblank hhash ih =>
      obtain ⟨hlength, happend⟩ := ih h
      refine ⟨Nat.lt_succ_of_lt hlength, fun t => ?_⟩
      rw [List.cons_append, countDigits, if_neg hdigit, if_neg hblank, if_pos hhash, happend]
  | case6 acc d s hdigit hblank hhash =>
      cases h
      refine ⟨Nat.lt_succ_self _, fun t => ?_⟩
      rw [List.cons_append, countDigits, if_neg hdigit, if_neg hblank, if_neg hhash]

theorem readCount_eq_ok {verbose : Bool} {n count : Option Nat} {s mid rest : List Char}
    (h : countDigits verbose false none (s.dropWhile isWhitespace) = (n, mid)) :
    readCount verbose s = .ok (count, rest) ↔
      n = count ∧ mid.dropWhile isWhitespace = rest ∧ ∀ m ∈ n, m ≤ maxCount := by
  simp only [readCount, h]
  cases n with
  | none => simp
  | some n =>
      by_cases hn : n ≤ maxCount
      · simp [hn]
      · simp [hn]

/-- A count that leaves something has left all that follows. -/
theorem readCount_append {verbose : Bool} {count : Option Nat} {s rest : List Char} {c : Char}
    (h : readCount verbose s = .ok (count, c :: rest)) :
    rest.length < s.length ∧ ∀ t, readCount verbose (s ++ t) = .ok (count, c :: rest ++ t) := by
  rcases hdigits : countDigits verbose false none (s.dropWhile isWhitespace) with ⟨n, mid⟩
  obtain ⟨rfl, hrest, hfits⟩ := (readCount_eq_ok hdigits).mp h
  cases mid with
  | nil => cases hrest
  | cons d mid =>
      obtain ⟨hcounted, happend⟩ := countDigits_append hdigits
      have hleft := List.length_dropWhile_le isWhitespace s
      have hright := List.length_dropWhile_le isWhitespace (d :: mid)
      rw [hrest] at hright
      simp only [List.length_cons] at hright
      refine ⟨by omega, fun t => ?_⟩
      cases hs : s.dropWhile isWhitespace with
      | nil =>
          rw [hs] at hcounted
          cases hcounted
      | cons e r =>
          rw [hs] at happend
          have hdigits' : countDigits verbose false none ((s ++ t).dropWhile isWhitespace) =
              (n, d :: mid ++ t) := by
            rw [(span_append hs t).2]
            exact happend t
          exact (readCount_eq_ok hdigits').mpr ⟨rfl, (span_append hrest t).2, hfits⟩

/-- The group that is opened behind the anchor of the start. -/
def Opened.anchored : Opened := ⟨[.assertion .lineStart], [], false, [], false⟩

namespace Reader

/-- A reader whose open groups stand within others that are open as well. -/
def within (r : Reader) (outer : List Opened) (rest : List Char) : Reader :=
  { r with rest, stack := r.stack ++ outer }

variable {r r' : Reader} {s x : List Char} {outer : List Opened}

theorem operand_within : (r.within outer x).operand = r.operand := rfl

theorem verbose_within : (r.within outer x).verbose = r.verbose := rfl

theorem dropLazy_append {s t : List Char} (ht : Closing t) :
    dropLazy (s ++ t) = dropLazy s ++ t := by
  by_cases hlazy : s.head? = some '?'
  · obtain ⟨s, rfl⟩ := List.head?_eq_some_iff.mp hlazy
    rfl
  · have hplain {s : List Char} (hs : s.head? ≠ some '?') : dropLazy s = s := by
      unfold dropLazy
      split
      next => exact absurd rfl hs
      next => rfl
    rw [hplain hlazy, hplain (head?_append_ne hlazy ht (by decide))]

theorem dropLazy_length (s : List Char) : (dropLazy s).length ≤ s.length := by
  unfold dropLazy
  split
  next => exact Nat.le_succ _
  next => exact Nat.le_refl _

/-- What a repetition operator leaves. -/
theorem repeatLast_leaves {min : Nat} {max : Option Nat}
    (h : r.repeatLast min max (dropLazy s) = .ok r') :
    Leaves (fun s => (r.within outer x).repeatLast min max (dropLazy s)) (r'.within outer)
      s r'.rest := by
  unfold repeatLast at h ⊢
  obtain ⟨⟨part, before⟩, hoperand, h⟩ := exists_of_bind_ok h
  cases h
  simp only [operand_within, hoperand]
  refine ⟨rfl, dropLazy_length s, .inl fun u => ?_⟩
  rw [dropLazy_append (.inr ⟨u, rfl⟩)]
  rfl

theorem closeGroup_leaves (h : r.closeGroup s = .ok r') :
    Leaves (r.within outer x).closeGroup (r'.within outer) s r'.rest := by
  unfold closeGroup at h
  split at h
  next => cases h
  next top stack hstack =>
    cases h
    have hwithin : (r.within outer x).stack = top :: (stack ++ outer) := by
      rw [within, hstack]
      rfl
    unfold closeGroup
    simp only [hwithin]
    exact .here

/-- The end of the braces of a repetition with known counts. -/
def closeCounted (r : Reader) (min : Nat) (max : Option Nat) (s : List Char) :
    Except Fault Reader :=
  match s with
  | '\x7d' :: rest =>
    let rest := dropLazy (skipBlank r.verbose rest)
    if max.all (min ≤ ·) then r.repeatLast min max rest else .error .repetitionCountsReversed
  | _ => .error .repetitionUnclosed

/-- The braces of a repetition behind the first count. -/
def countedFrom (r : Reader) (min : Option Nat) (s : List Char) : Except Fault Reader :=
  match s with
  | [] => .error .repetitionUnclosed
  | ',' :: rest =>
    match skipBlank r.verbose rest with
    | [] => .error .repetitionUnclosed
    | '\x7d' :: rest => do r.closeCounted (← required min) none ('\x7d' :: rest)
    | s => do
      let min ← required min
      let (max, s) ← readCount r.verbose s
      r.closeCounted min (some (← required max)) s
  | s => do
    let min ← required min
    r.closeCounted min (some min) s

theorem readCounted_eq (r : Reader) (s : List Char) : r.readCounted s = (do
    let _ ← r.operand
    if (skipBlank r.verbose s).isEmpty then .error .repetitionUnclosed
    else
      let (min, s) ← readCount r.verbose (skipBlank r.verbose s)
      r.countedFrom min s) := by
  unfold readCounted countedFrom closeCounted
  rfl

theorem closeCounted_leaves {min : Nat} {max : Option Nat}
    (h : r.closeCounted min max s = .ok r') :
    Leaves ((r.within outer x).closeCounted min max) (r'.within outer) s r'.rest := by
  unfold closeCounted at h
  split at h
  next s =>
    apply Leaves.cons
    simp only [closeCounted]
    by_cases hordered : max.all (min ≤ ·) = true
    · simp only [if_pos hordered] at h ⊢
      exact .skip r.verbose (repeatLast_leaves h)
    · simp only [if_neg hordered] at h
      cases h
  next => cases h

theorem countedFrom_leaves {min : Option Nat} (h : r.countedFrom min s = .ok r') :
    Leaves ((r.within outer x).countedFrom min) (r'.within outer) s r'.rest := by
  unfold countedFrom at h
  split at h
  next => cases h
  next s =>
    have hlength := skipBlank_length r.verbose s
    split at h
    next => cases h
    next s' hblank =>
      obtain ⟨n, hn, h⟩ := exists_of_bind_ok h
      rw [hblank] at hlength
      refine (closeCounted_leaves (x := x) h).of_append (Nat.le_succ_of_le hlength) fun t _ => ?_
      simp only [countedFrom, List.cons_append, verbose_within, skipBlank_append hblank t, hn]
      rfl
    next hnil hclose =>
      obtain ⟨n, hn, h⟩ := exists_of_bind_ok h
      obtain ⟨⟨max, mid⟩, hmax, h⟩ := exists_of_bind_ok h
      obtain ⟨m, hm, h⟩ := exists_of_bind_ok h
      cases hblank : skipBlank r.verbose s with
      | nil => exact absurd hblank hnil
      | cons c s' =>
          rw [hblank] at hlength hmax
          cases mid with
          | nil => cases h
          | cons d mid =>
              obtain ⟨hshort, happend⟩ := readCount_append hmax
              apply (closeCounted_leaves (x := x) h).of_append
              · simp only [List.length_cons] at hlength hshort ⊢
                omega
              · intro t ht
                have hc : c ≠ '\x7d' := fun hc => hclose s' (hc ▸ hblank)
                have happend' := happend t
                rw [List.cons_append] at happend'
                simp [countedFrom, verbose_within, skipBlank_append hblank t, hc, hn, happend', hm,
                  ok_bind]
  next hnil hcomma =>
    obtain ⟨n, hn, h⟩ := exists_of_bind_ok h
    apply (closeCounted_leaves (x := x) h).of_append (Nat.le_refl _)
    intro t ht
    cases s with
    | nil => exact absurd rfl hnil
    | cons c s =>
        have hc : c ≠ ',' := fun hc => hcomma s (hc ▸ rfl)
        simp [countedFrom, hc, hn]
        rfl

/-- What stands in the braces of a repetition leaves what follows it. -/
theorem readCounted_leaves (h : r.readCounted s = .ok r') :
    Leaves (r.within outer x).readCounted (r'.within outer) s r'.rest := by
  rw [readCounted_eq] at h
  obtain ⟨operand, hoperand, h⟩ := exists_of_bind_ok h
  cases hblank : skipBlank r.verbose s with
  | nil => 
      rw [hblank] at h
      cases h
  | cons c s' =>
      rw [hblank] at h
      obtain ⟨⟨min, mid⟩, hmin, h⟩ := exists_of_bind_ok h
      have hlength := skipBlank_length r.verbose s
      cases mid with
      | nil => cases h
      | cons d mid =>
          obtain ⟨hshort, happend⟩ := readCount_append hmin
          apply (countedFrom_leaves (x := x) h).of_append
          · rw [hblank] at hlength
            simp only [List.length_cons] at hlength hshort ⊢
            omega
          · intro t _
            have happend' := happend t
            rw [List.cons_append] at happend'
            rw [readCounted_eq, operand_within, verbose_within, hoperand, skipBlank_append hblank t]
            simp [happend', ok_bind]

/-- A group with a name, of which the opening bracket has been read. -/
def openNamed (r : Reader) (s : List Char) : Except Fault Reader := do
  let (name, rest) ← readName [] s
  if r.names.contains name then .error .groupNameRepeated
  else return { r.enter true [] rest with names := name :: r.names }

/-- Flags to set, for the text that follows or for a group. -/
def openFlags (r : Reader) (s : List Char) : Except Fault Reader := do
  if s.isEmpty then .error .groupUnclosed
  else
    let (changes, closing, rest) ← readFlags true false [] s
    if closing = ')' then
      if changes.isEmpty then .error .repetitionWithoutOperand
      else
        let verbose := ((changes.find? (·.1 = .verbose)).map (·.2)).getD r.verbose
        return { r.push (.setFlags changes) rest with verbose }
    else return r.enter false changes rest

/-- What stands behind an opening parenthesis and the blanks that follow it. -/
def openAt (r : Reader) (s : List Char) : Except Fault Reader :=
  match s with
  | '?' :: '=' :: _ | '?' :: '!' :: _ | '?' :: '<' :: '=' :: _ | '?' :: '<' :: '!' :: _ =>
    .error .lookAround
  | '?' :: 'P' :: '<' :: s => r.openNamed s
  | '?' :: '<' :: s => r.openNamed s
  | '?' :: s => r.openFlags s
  | s => .ok (r.enter true [] s)

theorem openGroup_eq (r : Reader) (s : List Char) :
    r.openGroup s = r.openAt (skipBlank r.verbose s) := by
  unfold openGroup openAt openNamed openFlags
  rfl

theorem openNamed_leaves (h : r.openNamed s = .ok r') :
    Leaves (r.within outer x).openNamed (r'.within outer) s r'.rest := by
  unfold openNamed at h
  obtain ⟨⟨name, mid⟩, hname, h⟩ := exists_of_bind_ok h
  obtain ⟨hlength, happend⟩ := readName_append hname
  dsimp only at h
  by_cases hknown : r.names.contains name = true
  · rw [if_pos hknown] at h
    cases h
  · rw [if_neg hknown] at h
    cases h
    apply Leaves.here.of_append hlength
    intro t _
    rw [openNamed, happend t, ok_bind]
    exact if_neg hknown

theorem openFlags_leaves (h : r.openFlags s = .ok r') :
    Leaves (r.within outer x).openFlags (r'.within outer) s r'.rest := by
  unfold openFlags at h
  split at h
  next => cases h
  next hs =>
    obtain ⟨⟨changes, closing, mid⟩, hflags, h⟩ := exists_of_bind_ok h
    obtain ⟨hlength, happend⟩ := readFlags_append hflags
    dsimp only at h
    have hempty (t : List Char) : (s ++ t).isEmpty = false := by
      simp_all
    by_cases hclosing : closing = ')'
    · rw [if_pos hclosing] at h
      split at h
      next => cases h
      next hchanges =>
        cases h
        apply Leaves.here.of_append hlength
        intro t _
        simp only [openFlags, hempty t, happend t, ok_bind, if_pos hclosing, if_neg hchanges]
        rfl
    · rw [if_neg hclosing] at h
      cases h
      apply Leaves.here.of_append hlength
      intro t _
      simp only [openFlags, hempty t, happend t, ok_bind, if_neg hclosing]
      rfl

theorem openAt_plain (r : Reader) {s : List Char} (hs : s.head? ≠ some '?') :
    r.openAt s = .ok (r.enter true [] s) := by
  cases s with
  | nil => rfl
  | cons c s =>
      have hc : c ≠ '?' := by simpa using hs
      simp [openAt, hc]

theorem openAt_leaves (h : r.openAt s = .ok r') :
    Leaves (r.within outer x).openAt (r'.within outer) s r'.rest := by
  unfold openAt at h
  split at h
  case h_1 | h_2 | h_3 | h_4 => cases h
  next s =>
    apply (openNamed_leaves (x := x) h).of_append (Nat.le_add_right _ 3)
    intro t _
    rfl
  next s hequal hbang =>
    cases s with
    | nil => cases h
    | cons c s =>
        have hc : c ≠ '=' := fun hc => hequal s (hc ▸ rfl)
        have hc' : c ≠ '!' := fun hc => hbang s (hc ▸ rfl)
        apply (openNamed_leaves (x := x) h).of_append (Nat.le_add_right _ 2)
        intro t _
        simp [openAt, hc, hc']
  next s hequal hbang _ _ _ hless =>
    cases s with
    | nil => cases h
    | cons c s =>
        have hc : c ≠ '=' := fun hc => hequal s (hc ▸ rfl)
        have hc' : c ≠ '!' := fun hc => hbang s (hc ▸ rfl)
        have hc'' : c ≠ '<' := fun hc => hless s (hc ▸ rfl)
        have hP : c ≠ 'P' := by
          rintro rfl
          have hunknown : r.openFlags ('P' :: s) = .error .flagUnknown := rfl
          rw [hunknown] at h
          cases h
        apply (openFlags_leaves (x := x) h).of_append (Nat.le_succ _)
        intro t _
        simp [openAt, hc, hc', hc'', hP]
  next hquestion =>
    have hs : s.head? ≠ some '?' := by
      intro hs
      obtain ⟨s, rfl⟩ := List.head?_eq_some_iff.mp hs
      exact hquestion s rfl
    cases h
    apply Leaves.here.of_append (Nat.le_refl _)
    intro t ht
    rw [openAt_plain _ (head?_append_ne hs ht (by decide))]
    rfl

theorem openGroup_leaves (h : r.openGroup s = .ok r') :
    Leaves (r.within outer x).openGroup (r'.within outer) s r'.rest := by
  rw [openGroup_eq] at h
  apply (Leaves.skip r.verbose (openAt_leaves (x := x) h)).of_append (Nat.le_refl _)
  intro t _
  exact openGroup_eq (r.within outer x) (s ++ t)

/-- One step leaves what follows the text that it takes. -/
theorem step_leaves {c : Char} (h : r.step c s = .ok r') :
    Leaves ((r.within outer x).step c) (r'.within outer) s r'.rest := by
  unfold step at h ⊢
  split at h
  case h_1 => exact openGroup_leaves h
  case h_2 => exact closeGroup_leaves h
  case h_4 =>
    obtain ⟨⟨negated, items, mid⟩, hopen, h⟩ := exists_of_bind_ok h
    obtain ⟨⟨negated', body, rest⟩, hclass, h⟩ := exists_of_bind_ok h
    cases h
    refine (openBracket_leaves hopen).bind ?_
    refine (readClass_leaves hclass (Nat.le_refl _)).bind ?_
    exact .here
  case h_5 | h_6 | h_7 => exact repeatLast_leaves h
  case h_8 => exact readCounted_leaves h
  case h_9 =>
    obtain ⟨⟨atom, mid⟩, hatom, h⟩ := exists_of_bind_ok h
    cases h
    exact (readEscape_leaves hatom).bind .here
  all_goals
    cases h
    exact .here

/-- Neither the groups around a reader nor the text that it has passed change what it does. -/
theorem step_within {c : Char} (h : r.step c s = .ok r') :
    (r.within outer x).step c s = .ok (r'.within outer r'.rest) :=
  (step_leaves h).reads

/-- Whether a step leaves a closing parenthesis or has lost it is the same within all groups. -/
theorem step_behind {c : Char} (h : r.step c s = .ok r') :
    (∀ outer x u, (r.within outer x).step c (s ++ ')' :: u) =
        .ok (r'.within outer (r'.rest ++ ')' :: u))) ∨
      (r'.rest = [] ∧ ∀ outer x u, '\n' ∉ u →
        (r.within outer x).step c (s ++ ')' :: u) = .ok (r'.within outer [])) := by
  have hwithin (outer : List Opened) (x y : List Char) (r : Reader) :
      (r.within [] x).within outer y = r.within outer y := by
    simp [within]
  have hleaves : Leaves ((r.within [] []).step c) (r'.within []) s r'.rest := step_leaves h
  rcases hleaves.behind with hkept | ⟨hempty, hlost⟩
  · left
    intro outer x u
    rw [← hwithin outer [] x r, step_within (hkept u), hwithin]
    rfl
  · right
    refine ⟨hempty, fun outer x u hu => ?_⟩
    rw [← hwithin outer [] x r, step_within (hlost u hu), hwithin]
    rfl

theorem run_of_blank (hblank : skipBlank r.verbose r.rest = []) (fuel : Nat) :
    r.run fuel = if r.stack.isEmpty then .ok r.body else .error .groupUnclosed := by
  unfold run
  rw [hblank]

theorem run_of_char {c : Char} (hblank : skipBlank r.verbose r.rest = c :: s) (fuel : Nat) :
    r.run (fuel + 1) = r.step c s >>= run fuel := by
  rw [run.eq_def]
  simp only [hblank]

theorem stack_within : (r.within outer x).stack = r.stack ++ outer := rfl

theorem closeGroup_within (hstack : r.stack = []) (u : List Char) (o : Opened) :
    (r.within (o :: outer) x).closeGroup u = .ok
      { rest := u, stack := outer, verbose := o.verbose, names := r.names, branches := o.branches,
        parts := .group o.captures o.changes r.body :: o.before } := by
  unfold closeGroup
  rw [stack_within, hstack]
  rfl

/-- A closing parenthesis behind what is left of a pattern closes the group around it. -/
def Closes (r : Reader) (fuel : Nat) (pattern : Pattern) : Prop :=
  ∃ e : Reader, e.stack = [] ∧ e.body = pattern ∧ ∀ outer u k, ∃ x k', k ≤ k' ∧
    (r.within outer (r.rest ++ ')' :: u)).run (fuel + (k + 1)) =
      (e.within outer x).closeGroup u >>= run k'

/-- A closing parenthesis behind what is left of a pattern is lost with the rest of the line, so
that the groups around the pattern stay open. -/
def Swallows (r : Reader) (fuel : Nat) (pattern : Pattern) : Prop :=
  ∀ outer u k, '\n' ∉ u → (r.within outer (r.rest ++ ')' :: u)).run (fuel + k) =
    if outer.isEmpty then .ok pattern else .error .groupUnclosed

theorem run_within_of_blank (hblank : skipBlank r.verbose x = []) (hstack : r.stack = [])
    (outer : List Opened) (fuel : Nat) : (r.within outer x).run fuel =
      if outer.isEmpty then .ok r.body else .error .groupUnclosed := by
  rw [run_of_blank hblank, stack_within, hstack]
  rfl

theorem run_eq_ok_of_blank {pattern : Pattern} {fuel : Nat}
    (hblank : skipBlank r.verbose r.rest = []) (h : r.run fuel = .ok pattern) :
    r.stack = [] ∧ r.body = pattern := by
  rw [run_of_blank hblank] at h
  by_cases hstack : r.stack.isEmpty = true
  · rw [if_pos hstack] at h
    exact ⟨List.isEmpty_iff.mp hstack, Except.ok.inj h⟩
  · rw [if_neg hstack] at h
    cases h

theorem closes_or_swallows_of_blank {pattern : Pattern} {fuel : Nat}
    (hblank : skipBlank r.verbose r.rest = []) (h : r.run fuel = .ok pattern) :
    r.Closes fuel pattern ∨ r.Swallows fuel pattern := by
  obtain ⟨hstack, hbody⟩ := run_eq_ok_of_blank hblank h
  have hleaves := skipBlank_leaves r.verbose r.rest
  rw [hblank] at hleaves
  rcases hleaves.behind with hkept | ⟨-, hlost⟩
  · left
    refine ⟨r, hstack, hbody, fun outer u k => ?_⟩
    have hclose : skipBlank r.verbose (r.rest ++ ')' :: u) = ')' :: u :=
      Except.ok.inj (hkept u)
    refine ⟨r.rest ++ ')' :: u, fuel + k, Nat.le_add_left k fuel, ?_⟩
    rw [← Nat.add_assoc]
    exact run_of_char (r := r.within outer (r.rest ++ ')' :: u)) hclose (fuel + k)
  · right
    intro outer u k hu
    rw [run_within_of_blank (Except.ok.inj (hlost u hu)) hstack, hbody]

/-- A closing parenthesis behind a pattern closes a group around it, if there is one, or it is
lost in a comment, and then a group around the pattern stays open. -/
theorem closes_or_swallows {fuel : Nat} {pattern : Pattern} (h : r.run fuel = .ok pattern) :
    r.Closes fuel pattern ∨ r.Swallows fuel pattern := by
  induction fuel generalizing r with
  | zero =>
      cases hblank : skipBlank r.verbose r.rest with
      | nil => exact closes_or_swallows_of_blank hblank h
      | cons c s =>
          rw [run.eq_def] at h
          simp only [hblank] at h
          cases h
  | succ fuel ih =>
      cases hblank : skipBlank r.verbose r.rest with
      | nil => exact closes_or_swallows_of_blank hblank h
      | cons c s =>
          rw [run_of_char hblank] at h
          obtain ⟨r', hstep, h⟩ := exists_of_bind_ok h
          have hrun (outer : List Opened) (u : List Char) (k : Nat) :
              (r.within outer (r.rest ++ ')' :: u)).run (fuel + 1 + k) =
                (r.within outer (r.rest ++ ')' :: u)).step c (s ++ ')' :: u) >>=
                  run (fuel + k) := by
            rw [Nat.add_right_comm]
            exact run_of_char (skipBlank_append hblank (')' :: u)) (fuel + k)
          rcases step_behind hstep with hkept | ⟨hempty, hlost⟩
          · rcases ih h with ⟨e, hstack, hbody, hcloses⟩ | hswallows
            · left
              refine ⟨e, hstack, hbody, fun outer u k => ?_⟩
              rw [hrun, hkept, ok_bind]
              exact hcloses outer u k
            · right
              intro outer u k hu
              rw [hrun, hkept, ok_bind]
              exact hswallows outer u k hu
          · right
            intro outer u k hu
            have hblank' : skipBlank r'.verbose r'.rest = [] := by
              rw [hempty, skipBlank_nil]
            obtain ⟨hstack, hbody⟩ := run_eq_ok_of_blank hblank' h
            rw [hrun, hlost outer _ u hu, ok_bind,
              run_within_of_blank (skipBlank_nil r'.verbose) hstack, hbody]

theorem run_anchored (t : List Char) (fuel : Nat) :
    (start ('^' :: '(' :: '?' :: ':' :: t)).run (fuel + 2) =
      ((start t).within [.anchored] t).run fuel := rfl

end Reader

/-- A pattern that ends inside a comment: a closing parenthesis behind it is not seen, nor is the
rest of its line. -/
def EndsInComment (p : List Char) : Prop :=
  ∀ u, '\n' ∉ u → Pattern.read (p ++ ')' :: u) = Pattern.read p

variable {p : List Char} {pattern : Pattern}

theorem read_eq_ok : Pattern.read p = .ok pattern ↔
    (Reader.start p).run p.length = .ok pattern ∧ pattern.depth ≤ nestLimit := by
  unfold Pattern.read
  cases hrun : (Reader.start p).run p.length with
  | error e => simp [Bind.bind, Except.bind]
  | ok found =>
      rw [ok_bind]
      by_cases hdepth : found.depth ≤ nestLimit
      · rw [if_pos hdepth]
        constructor
        · intro h
          cases h
          exact ⟨rfl, hdepth⟩
        · rintro ⟨h, -⟩
          cases h
          rfl
      · rw [if_neg hdepth]
        constructor
        · intro h
          cases h
        · rintro ⟨h, h'⟩
          cases h
          exact absurd h' hdepth

theorem read_append (p u : List Char) : Pattern.read (p ++ ')' :: u) = (do
    let pattern ← ((Reader.start p).within [] ((Reader.start p).rest ++ ')' :: u)).run
      (p.length + (u.length + 1))
    if pattern.depth ≤ nestLimit then return pattern else .error .nestedTooDeeply) := by
  unfold Pattern.read
  rw [List.length_append, List.length_cons]
  rfl

theorem endsInComment_of_swallows (h : Pattern.read p = .ok pattern)
    (hswallows : (Reader.start p).Swallows p.length pattern) : EndsInComment p := by
  intro u hu
  rw [read_append, h, hswallows [] u (u.length + 1) hu]
  exact if_pos (read_eq_ok.mp h).2

theorem read_of_closes (hcloses : (Reader.start p).Closes p.length pattern) :
    Pattern.read (p ++ [')']) = .error .groupUnopened := by
  obtain ⟨e, hstack, -, hrun⟩ := hcloses
  obtain ⟨x, k, -, hrun⟩ := hrun [] [] 0
  have hunopened : (e.within [] x).closeGroup [] = .error .groupUnopened := by
    unfold Reader.closeGroup
    rw [Reader.stack_within, hstack]
    rfl
  rw [read_append, List.length_nil, hrun, hunopened]
  rfl

theorem not_endsInComment_of_closes (h : Pattern.read p = .ok pattern)
    (hcloses : (Reader.start p).Closes p.length pattern) : ¬ EndsInComment p := by
  intro hp
  have hread := hp [] (by simp)
  rw [read_of_closes hcloses, h] at hread
  cases hread

/-- A pattern that does not end in a comment stands in the group behind the anchor; the reader
comes back from it with fuel for the text behind the group. -/
theorem run_anchored_of_closes (hcloses : (Reader.start p).Closes p.length pattern)
    (u : List Char) : ∃ names k, u.length ≤ k ∧
      (Reader.start ('^' :: '(' :: '?' :: ':' :: (p ++ ')' :: u))).run
          ('^' :: '(' :: '?' :: ':' :: (p ++ ')' :: u)).length =
        Reader.run k
          ⟨u, false, [.group false [] pattern, .assertion .lineStart], [], [], names⟩ := by
  obtain ⟨e, hstack, rfl, hrun⟩ := hcloses
  obtain ⟨x, k, hk, hrun⟩ := hrun [.anchored] u (u.length + 2)
  refine ⟨e.names, k, by omega, ?_⟩
  have hlength : ('^' :: '(' :: '?' :: ':' :: (p ++ ')' :: u)).length =
      p.length + (u.length + 2 + 1) + 2 := by
    simp only [List.length_cons, List.length_append]
    omega
  rw [hlength, Reader.run_anchored]
  refine hrun.trans ?_
  rw [Reader.closeGroup_within hstack, ok_bind]
  rfl

theorem read_anchored_of_swallows (hswallows : (Reader.start p).Swallows p.length pattern)
    {u : List Char} (hu : '\n' ∉ u) :
    Pattern.read ('^' :: '(' :: '?' :: ':' :: (p ++ ')' :: u)) = .error .groupUnclosed := by
  have hlength : ('^' :: '(' :: '?' :: ':' :: (p ++ ')' :: u)).length =
      p.length + (u.length + 3) + 2 := by
    simp only [List.length_cons, List.length_append]
    omega
  have hrun : ((Reader.start (p ++ ')' :: u)).within [.anchored] (p ++ ')' :: u)).run
      (p.length + (u.length + 3)) = .error .groupUnclosed :=
    hswallows [.anchored] u (u.length + 3) hu
  unfold Pattern.read
  rw [hlength, Reader.run_anchored, hrun]
  rfl

/-- A pattern in a group behind the anchor of the start, and before that of the end if the match
has to stop there. -/
def Pattern.anchor (pattern : Pattern) (stops : Bool) : Pattern :=
  .concat (.assertion .lineStart :: .group false [] pattern ::
    if stops then [.assertion .lineEnd] else [])

/-- The text of such a pattern. -/
def anchorText (p : List Char) (stops : Bool) : List Char :=
  '^' :: '(' :: '?' :: ':' :: (p ++ ')' :: if stops then ['$'] else [])

theorem run_anchor_of_closes (hcloses : (Reader.start p).Closes p.length pattern) (stops : Bool) :
    (Reader.start (anchorText p stops)).run (anchorText p stops).length =
      .ok (pattern.anchor stops) := by
  obtain ⟨names, k, hk, hrun⟩ := run_anchored_of_closes hcloses (if stops then ['$'] else [])
  refine hrun.trans ?_
  cases stops with
  | false => exact Reader.run_of_blank rfl k
  | true =>
      obtain ⟨k, rfl⟩ := Nat.exists_eq_add_of_le' hk
      cases k <;> rfl

theorem depth_anchor (pattern : Pattern) (stops : Bool) :
    (pattern.anchor stops).depth = pattern.depth + 2 := by
  cases stops <;> simp [Pattern.anchor, Pattern.depth, Pattern.depthAll]

/-- Between the anchors a pattern reads as it does alone, but two levels deeper. -/
theorem read_anchorText (h : Pattern.read p = .ok pattern) (hp : ¬ EndsInComment p)
    (stops : Bool) : Pattern.read (anchorText p stops) =
      if pattern.depth + 2 ≤ nestLimit then .ok (pattern.anchor stops)
      else .error .nestedTooDeeply := by
  have hcloses : (Reader.start p).Closes p.length pattern := by
    rcases Reader.closes_or_swallows (read_eq_ok.mp h).1 with hcloses | hswallows
    · exact hcloses
    · exact absurd (endsInComment_of_swallows h hswallows) hp
  unfold Pattern.read
  rw [run_anchor_of_closes hcloses, ok_bind, depth_anchor]
  rfl

/-- Behind a pattern that ends in a comment the parenthesis of its group is lost. -/
theorem read_anchorText_of_endsInComment (h : Pattern.read p = .ok pattern) (hp : EndsInComment p)
    (stops : Bool) : Pattern.read (anchorText p stops) = .error .groupUnclosed := by
  rcases Reader.closes_or_swallows (read_eq_ok.mp h).1 with hcloses | hswallows
  · exact absurd hp (not_endsInComment_of_closes h hcloses)
  · exact read_anchored_of_swallows hswallows (by cases stops <;> decide)

/-- The expression of a pattern with its anchors. -/
def anchorRegex (re : Regex) (stops : Bool) : Regex :=
  .concat (.look .start :: re :: if stops then [.look .stop] else [])

theorem ofPattern_anchor {caseInsensitive : Bool} {re : Regex} {flags : Flags}
    (h : ofPattern { caseInsensitive } pattern = .ok (re, flags)) (stops : Bool) :
    ofPattern { caseInsensitive } (pattern.anchor stops) =
      .ok (anchorRegex re stops, { caseInsensitive }) := by
  cases stops <;>
    simp [Pattern.anchor, anchorRegex, ofPattern, ofPatterns, Flags.apply, Flags.look, h, ok_bind]

/-- Each anchor takes one state. -/
theorem size_anchorRegex (backwards : Bool) (re : Regex) (stops : Bool) :
    size backwards (anchorRegex re stops) =
      size backwards re + (if stops then 2 else 1) * stateSize := by
  cases stops
  all_goals
    simp [anchorRegex, size, sizeAll]
    omega

/-- One parenthesis behind a pattern tells whether the pattern ends in a comment. -/
theorem endsInComment_iff (h : Pattern.read p = .ok pattern) :
    EndsInComment p ↔ ∃ found, Pattern.read (p ++ [')']) = .ok found := by
  constructor
  · intro hp
    exact ⟨pattern, (hp [] (by simp)).trans h⟩
  · rintro ⟨found, hfound⟩
    rcases Reader.closes_or_swallows (read_eq_ok.mp h).1 with hcloses | hswallows
    · rw [read_of_closes hcloses] at hfound
      cases hfound
    · exact endsInComment_of_swallows h hswallows

theorem fits_iff {re : Regex} :
    re.fits = true ↔ ∀ backwards, 5 * stateSize + size backwards re ≤ sizeLimit := by
  simp [fits]

theorem compile_eq_ok {text : String} {caseInsensitive : Bool} {re : Regex} :
    compile text caseInsensitive = .ok re ↔
      ∃ pattern flags, Pattern.read text.toList = .ok pattern ∧
        ofPattern { caseInsensitive } pattern = .ok (re, flags) ∧ re.fits = true := by
  constructor
  · intro h
    obtain ⟨pattern, hread, h⟩ := exists_of_bind_ok h
    obtain ⟨⟨found, flags⟩, hpattern, h⟩ := exists_of_bind_ok h
    by_cases hfits : found.fits = true
    · cases (if_pos hfits).symm.trans h
      exact ⟨pattern, flags, hread, hpattern, hfits⟩
    · cases (if_neg hfits).symm.trans h
  · rintro ⟨pattern, flags, hread, hpattern, hfits⟩
    unfold compile
    rw [hread, ok_bind, hpattern, ok_bind]
    exact if_pos hfits

theorem isPattern_eq_true {text : String} {caseInsensitive : Bool} :
    isPattern text caseInsensitive = true ↔ ∃ re, compile text caseInsensitive = .ok re := by
  unfold isPattern
  cases compile text caseInsensitive <;> simp [Except.toBool]

/-- A text that compiles alone is refused between anchors only where it ends in a comment, nests
as deeply as a pattern may, or is as large as one may be. -/
theorem compile_anchorText_eq_error {text anchoredText : String} {stops caseInsensitive : Bool}
    {re : Regex} {flags : Flags} (hread : Pattern.read text.toList = .ok pattern)
    (hpattern : ofPattern { caseInsensitive } pattern = .ok (re, flags))
    (htext : anchoredText.toList = anchorText text.toList stops) :
    (∃ e, compile anchoredText caseInsensitive = .error e) ↔
      EndsInComment text.toList ∨ nestLimit < pattern.depth + 2 ∨
        ∃ backwards, sizeLimit <
          5 * stateSize + (size backwards re + (if stops then 2 else 1) * stateSize) := by
  unfold compile
  rw [htext]
  by_cases hcomment : EndsInComment text.toList
  · rw [read_anchorText_of_endsInComment hread hcomment]
    exact iff_of_true ⟨_, rfl⟩ (.inl hcomment)
  · rw [read_anchorText hread hcomment]
    by_cases hdepth : pattern.depth + 2 ≤ nestLimit
    · rw [if_pos hdepth, ok_bind, ofPattern_anchor hpattern, ok_bind]
      by_cases hfits : (anchorRegex re stops).fits = true
      · have hall := fits_iff.mp hfits
        simp only [size_anchorRegex] at hall
        apply iff_of_false
        · rintro ⟨e, he⟩
          cases (if_pos hfits).symm.trans he
        · rintro (h | h | ⟨backwards, h⟩)
          · exact hcomment h
          · omega
          · exact Nat.not_le.mpr h (hall backwards)
      · have hlarge : ∃ backwards, sizeLimit <
            5 * stateSize + (size backwards re + (if stops then 2 else 1) * stateSize) := by
          rw [fits_iff, not_forall] at hfits
          obtain ⟨backwards, hfits⟩ := hfits
          rw [size_anchorRegex] at hfits
          exact ⟨backwards, Nat.not_le.mp hfits⟩
        exact iff_of_true ⟨_, if_neg hfits⟩ (.inr (.inr hlarge))
    · rw [if_neg hdepth]
      exact iff_of_true ⟨_, rfl⟩ (.inr (.inl (Nat.not_le.mp hdepth)))

end Docket.Regex
