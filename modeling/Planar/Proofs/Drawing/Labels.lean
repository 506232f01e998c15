import Mathlib.Data.List.Basic
import Mathlib.Data.Set.Function
import Planar.Drawing.Markup

/-!
# Labels and their delimiters

A label is escaped character by character outside mathematics and copied inside it. The delimiters
of what is written are those of the label, unless an escaped dollar sign stands outside mathematics:
its backslash is written as a word, after which the sign is a delimiter like any other. The sign is
then one more that is free, and no delimiters come out as before.

* `delimiters` — the delimiters of a text, from left to right;
* `escapeFrom_append` — text without dollar signs is written by itself;
* `delimitersFrom_escapeFrom` — escaping keeps the delimiters as long as no sign is exposed;
* `freeSigns_le_escapeFrom`, `ExposesSign.freeSigns_lt` — escaping leaves every free sign free, and
  sets an exposed one free;
* `delimiters_escape_iff` — the delimiters are kept exactly when no sign is exposed.
-/

namespace Planar.Markup

variable {opened : Option Delimiter} {afterBackslash : Bool} {c : Char} {cs rest : List Char}
  {d : Delimiter}

/-! ## Delimiters of a text -/

theorem delimiter?_eq_some_iff :
    delimiter? afterBackslash cs = some (d, rest) ↔
      afterBackslash = false ∧ cs = d.chars ++ rest ∧ (d = .single → rest.head? ≠ some '$') := by
  constructor
  · intro h
    unfold delimiter? at h
    split at h
    case h_2 => cases h
    split at h
    case isTrue => cases h
    case isFalse hfree =>
    split at h
    · cases h
      exact ⟨Bool.eq_false_of_not_eq_true hfree, rfl, nofun⟩
    · next hsingle =>
      cases h
      refine ⟨Bool.eq_false_of_not_eq_true hfree, rfl, fun _ hhead => ?_⟩
      obtain ⟨more, rfl⟩ := List.head?_eq_some_iff.1 hhead
      exact hsingle more rfl
  · rintro ⟨rfl, rfl, hhead⟩
    cases d with
    | double => rfl
    | single =>
      cases rest with
      | nil => rfl
      | cons c rest =>
        have hne : c ≠ '$' := fun heq => hhead rfl (congrArg some heq)
        simp [delimiter?, Delimiter.chars, hne]

/-- A dollar sign that is not escaped is a delimiter or the first half of one. -/
theorem exists_delimiter (cs : List Char) :
    ∃ d rest, delimiter? false ('$' :: cs) = some (d, rest) := by
  by_cases hhead : cs.head? = some '$'
  · obtain ⟨more, rfl⟩ := List.head?_eq_some_iff.1 hhead
    exact ⟨.double, more, rfl⟩
  · exact ⟨.single, cs, delimiter?_eq_some_iff.2 ⟨rfl, rfl, fun _ => hhead⟩⟩

theorem delimiter?_cons_eq_none_iff :
    delimiter? afterBackslash (c :: cs) = none ↔ (c = '$' → afterBackslash = true) := by
  by_cases hc : c = '$'
  · subst hc
    cases afterBackslash with
    | true => exact iff_of_true rfl fun _ => rfl
    | false =>
      obtain ⟨d, rest, h⟩ := exists_delimiter cs
      exact iff_of_false (by simp [h]) fun himp => nomatch himp rfl
  · refine iff_of_true ?_ fun h => absurd h hc
    unfold delimiter?
    split
    · next heq => exact absurd (List.cons.inj heq).1 hc
    · rfl

theorem delimiter?_of_ne (hc : c ≠ '$') (cs : List Char) :
    delimiter? afterBackslash (c :: cs) = none :=
  delimiter?_cons_eq_none_iff.2 fun heq => absurd heq hc

/-- Whether a character starts a delimiter does not depend on what comes after it. -/
theorem delimiter?_cons_eq_none (h : delimiter? afterBackslash (c :: cs) = none) (cs' : List Char) :
    delimiter? afterBackslash (c :: cs') = none :=
  delimiter?_cons_eq_none_iff.2 (delimiter?_cons_eq_none_iff.1 h)

/-- What comes after a text does not change the delimiter at its front, unless it goes on with it. -/
theorem delimiter?_append_cons (h : delimiter? afterBackslash cs = some (d, rest)) (hc : c ≠ '$')
    (more : List Char) :
    delimiter? afterBackslash (cs ++ c :: more) = some (d, rest ++ c :: more) := by
  obtain ⟨hfree, rfl, hhead⟩ := delimiter?_eq_some_iff.1 h
  refine delimiter?_eq_some_iff.2 ⟨hfree, List.append_assoc _ _ _, fun hd => ?_⟩
  cases rest with
  | nil => simpa using hc
  | cons r rest => exact hhead hd

/-- The delimiters of the rest of a text, from left to right; `afterBackslash` tells whether a
backslash comes just before. -/
def delimitersFrom (afterBackslash : Bool) (cs : List Char) : List Delimiter :=
  match _h : delimiter? afterBackslash cs with
  | some (d, rest) => d :: delimitersFrom false rest
  | none =>
    match cs with
    | [] => []
    | c :: rest => delimitersFrom (c == '\\') rest
termination_by cs.length
decreasing_by
  · exact length_lt_of_delimiter? _h
  · simp

/-- The delimiters of a text, from left to right. -/
def delimiters (s : String) : List Delimiter := delimitersFrom false s.toList

@[simp]
theorem delimitersFrom_nil : delimitersFrom afterBackslash [] = [] := by
  rw [delimitersFrom]
  rfl

theorem delimitersFrom_of_some (h : delimiter? afterBackslash cs = some (d, rest)) :
    delimitersFrom afterBackslash cs = d :: delimitersFrom false rest := by
  rw [delimitersFrom]
  split
  · next heq =>
    cases h.symm.trans heq
    rfl
  · next heq => cases h.symm.trans heq

theorem delimitersFrom_of_none (h : delimiter? afterBackslash (c :: cs) = none) :
    delimitersFrom afterBackslash (c :: cs) = delimitersFrom (c == '\\') cs := by
  rw [delimitersFrom]
  split
  · next heq => cases h.symm.trans heq
  · rfl

@[simp]
theorem escapeFrom_nil : escapeFrom opened afterBackslash [] = [] := by
  rw [escapeFrom]
  rfl

theorem escapeFrom_of_some (h : delimiter? afterBackslash cs = some (d, rest)) :
    escapeFrom opened afterBackslash cs = d.chars ++ escapeFrom (toggle opened d) false rest := by
  rw [escapeFrom]
  split
  · next heq =>
    cases h.symm.trans heq
    rfl
  · next heq => cases h.symm.trans heq

theorem escapeFrom_of_none (h : delimiter? afterBackslash (c :: cs) = none) :
    escapeFrom opened afterBackslash (c :: cs) =
      (if opened.isSome then [c] else escapeChar c) ++ escapeFrom opened (c == '\\') cs := by
  rw [escapeFrom]
  split
  · next heq => cases h.symm.trans heq
  · rfl

/-- Text without delimiters as it is written where `opened` is the open delimiter. -/
def writeText (opened : Option Delimiter) (cs : List Char) : List Char :=
  if opened.isSome then cs else escapeText cs

@[simp]
theorem writeText_nil : writeText opened [] = [] := by
  unfold writeText
  split <;> rfl

theorem writeText_cons :
    writeText opened (c :: cs) =
      (if opened.isSome then [c] else escapeChar c) ++ writeText opened cs := by
  unfold writeText
  split <;> rfl

/-! ## Text without dollar signs -/

/-- Whether a backslash comes just before the end of a text, if `afterBackslash` tells whether one
comes just before the text. -/
def endsAfterBackslash (afterBackslash : Bool) (cs : List Char) : Bool :=
  cs.getLast?.elim afterBackslash (· == '\\')

theorem endsAfterBackslash_cons :
    endsAfterBackslash afterBackslash (c :: cs) = endsAfterBackslash (c == '\\') cs := by
  cases cs with
  | nil => rfl
  | cons c' cs => rw [endsAfterBackslash, List.getLast?_cons_cons]; rfl

section Plain

variable {t : List Char}

/-- A scan that only looks for dollar signs passes over text that has none. -/
theorem scan_append {β : Type} {scan : Bool → List Char → β}
    (hscan : ∀ b c, c ≠ '$' → ∀ cs, scan b (c :: cs) = scan (c == '\\') cs)
    (ht : '$' ∉ t) (cs : List Char) :
    scan afterBackslash (t ++ cs) = scan (endsAfterBackslash afterBackslash t) cs := by
  induction t generalizing afterBackslash with
  | nil => rfl
  | cons c t ih =>
    obtain ⟨hc, ht⟩ := not_or.1 (mt List.mem_cons.2 ht)
    rw [List.cons_append, hscan _ _ (Ne.symm hc), ih ht, endsAfterBackslash_cons]

/-- Text that has no dollar sign is written by itself. -/
theorem escapeFrom_append (ht : '$' ∉ t) (cs : List Char) :
    escapeFrom opened afterBackslash (t ++ cs) =
      writeText opened t ++ escapeFrom opened (endsAfterBackslash afterBackslash t) cs := by
  induction t generalizing afterBackslash with
  | nil => rw [writeText_nil]; rfl
  | cons c t ih =>
    obtain ⟨hc, ht⟩ := not_or.1 (mt List.mem_cons.2 ht)
    rw [List.cons_append, escapeFrom_of_none (delimiter?_of_ne (Ne.symm hc) _), writeText_cons,
      List.append_assoc, ih ht, endsAfterBackslash_cons]

end Plain

theorem sign_not_mem_escapeChar (hc : c ≠ '$') : '$' ∉ escapeChar c := by
  unfold escapeChar
  split
  case h_10 => simpa using hc.symm
  all_goals decide

theorem escapeChar_ne_nil (c : Char) : escapeChar c ≠ [] := by
  unfold escapeChar
  split
  case h_10 => exact List.cons_ne_nil c []
  all_goals decide

/-- Outside mathematics no backslash is left before what comes next. -/
theorem endsAfterBackslash_escapeChar (afterBackslash : Bool) (c : Char) :
    endsAfterBackslash afterBackslash (escapeChar c) = false := by
  unfold escapeChar
  split
  case h_10 hbackslash _ _ _ _ _ _ _ _ => simpa [endsAfterBackslash] using hbackslash
  all_goals rfl

/-- A scan that only looks for dollar signs passes over an escaped character. -/
theorem scan_escapeChar_append {β : Type} {scan : Bool → List Char → β}
    (hscan : ∀ b c, c ≠ '$' → ∀ cs, scan b (c :: cs) = scan (c == '\\') cs)
    (hc : c ≠ '$') (cs : List Char) :
    scan afterBackslash (escapeChar c ++ cs) = scan false cs := by
  rw [scan_append hscan (sign_not_mem_escapeChar hc), endsAfterBackslash_escapeChar]

theorem delimitersFrom_of_ne (afterBackslash : Bool) (c : Char) (hc : c ≠ '$') (cs : List Char) :
    delimitersFrom afterBackslash (c :: cs) = delimitersFrom (c == '\\') cs :=
  delimitersFrom_of_none (delimiter?_of_ne hc cs)

/-! ## Exposed signs -/

/-- The delimiter that is open after a text, if `opened` is open before it. -/
def openAfter (opened : Option Delimiter) (afterBackslash : Bool) (cs : List Char) :
    Option Delimiter :=
  (delimitersFrom afterBackslash cs).foldl toggle opened

/-- Scanning goes on after any character that is no dollar sign. -/
theorem delimitersFrom_append_cons (hc : c ≠ '$') (before after : List Char) :
    delimitersFrom afterBackslash (before ++ c :: after) =
      delimitersFrom afterBackslash before ++ delimitersFrom (c == '\\') after := by
  induction afterBackslash, before using delimitersFrom.induct with
  | case1 afterBackslash before d rest h ih =>
    rw [delimitersFrom_of_some (delimiter?_append_cons h hc after), delimitersFrom_of_some h, ih]
    rfl
  | case2 afterBackslash h =>
    rw [List.nil_append, delimitersFrom_of_ne _ _ hc, delimitersFrom_nil, List.nil_append]
  | case3 afterBackslash b before h ih =>
    rw [List.cons_append, delimitersFrom_of_none (delimiter?_cons_eq_none h _),
      delimitersFrom_of_none h, ih]

/-- Escaping goes on after any character that is no dollar sign. -/
theorem escapeFrom_append_cons (hc : c ≠ '$') (before after : List Char) :
    escapeFrom opened afterBackslash (before ++ c :: after) =
      escapeFrom opened afterBackslash before ++
        (writeText (openAfter opened afterBackslash before) [c] ++
          escapeFrom (openAfter opened afterBackslash before) (c == '\\') after) := by
  unfold openAfter
  induction opened, afterBackslash, before using escapeFrom.induct with
  | case1 opened afterBackslash before d rest h ih =>
    rw [escapeFrom_of_some (delimiter?_append_cons h hc after), escapeFrom_of_some h,
      delimitersFrom_of_some h, ih, List.append_assoc]
    rfl
  | case2 opened afterBackslash h =>
    rw [List.nil_append, escapeFrom_of_none (delimiter?_of_ne hc _), escapeFrom_nil,
      delimitersFrom_nil, writeText_cons, writeText_nil, List.append_nil]
    rfl
  | case3 opened afterBackslash b before h ih =>
    rw [List.cons_append, escapeFrom_of_none (delimiter?_cons_eq_none h _), escapeFrom_of_none h,
      delimitersFrom_of_none h, ih, List.append_assoc]

/-- Whether some dollar sign in the rest of a text is escaped and stands outside mathematics. -/
def Exposes (opened : Option Delimiter) (afterBackslash : Bool) (cs : List Char) : Prop :=
  ∃ before after, cs = before ++ '$' :: after ∧
    endsAfterBackslash afterBackslash before = true ∧ openAfter opened afterBackslash before = none

theorem Exposes.of_some (h : delimiter? afterBackslash cs = some (d, rest))
    (hrest : Exposes (toggle opened d) false rest) : Exposes opened afterBackslash cs := by
  obtain ⟨hfree, rfl, hhead⟩ := delimiter?_eq_some_iff.1 h
  obtain ⟨before, after, rfl, hends, hopen⟩ := hrest
  cases before with
  | nil => cases hends
  | cons b before =>
    refine ⟨d.chars ++ b :: before, after, by simp, ?_, ?_⟩
    · rw [endsAfterBackslash, List.getLast?_append_of_ne_nil _ (List.cons_ne_nil b before)]
      exact hends
    · have hsome : delimiter? afterBackslash (d.chars ++ b :: before) = some (d, b :: before) :=
        delimiter?_eq_some_iff.2 ⟨hfree, rfl, hhead⟩
      rw [openAfter, delimitersFrom_of_some hsome]
      exact hopen

theorem Exposes.of_none (h : delimiter? afterBackslash (c :: cs) = none)
    (hcs : Exposes opened (c == '\\') cs) : Exposes opened afterBackslash (c :: cs) := by
  obtain ⟨before, after, rfl, hends, hopen⟩ := hcs
  refine ⟨c :: before, after, rfl, ?_, ?_⟩
  · rwa [endsAfterBackslash_cons]
  · rwa [openAfter, delimitersFrom_of_none (delimiter?_cons_eq_none h _)]

/-- What is written starts with a dollar sign only where the text does. -/
theorem head?_of_head?_escapeFrom (h : (escapeFrom opened afterBackslash cs).head? = some '$') :
    cs.head? = some '$' := by
  cases cs with
  | nil => simp at h
  | cons c cs =>
    by_contra hne
    have hc : c ≠ '$' := fun heq => hne (congrArg some heq)
    rw [escapeFrom_of_none (delimiter?_of_ne hc cs)] at h
    split at h
    · exact hc (Option.some.inj h)
    · rw [List.head?_append_of_ne_nil _ (escapeChar_ne_nil c)] at h
      exact sign_not_mem_escapeChar hc (List.mem_of_mem_head? h)

/-- Escaping keeps the delimiters as long as no escaped dollar sign is exposed. Outside mathematics
no backslash stands before what comes next in what is written. -/
theorem delimitersFrom_escapeFrom (hexposes : ¬Exposes opened afterBackslash cs) :
    delimitersFrom (opened.isSome && afterBackslash) (escapeFrom opened afterBackslash cs) =
      delimitersFrom afterBackslash cs := by
  induction opened, afterBackslash, cs using escapeFrom.induct with
  | case1 opened afterBackslash cs d rest h ih =>
    have ih := ih (mt (Exposes.of_some h) hexposes)
    obtain ⟨rfl, rfl, hhead⟩ := delimiter?_eq_some_iff.1 h
    have hsome : delimiter? false (d.chars ++ escapeFrom (toggle opened d) false rest) =
        some (d, escapeFrom (toggle opened d) false rest) :=
      delimiter?_eq_some_iff.2 ⟨rfl, rfl, fun hd => mt head?_of_head?_escapeFrom (hhead hd)⟩
    rw [Bool.and_false] at ih ⊢
    rw [escapeFrom_of_some h, delimitersFrom_of_some h, delimitersFrom_of_some hsome, ih]
  | case2 opened afterBackslash h => rw [escapeFrom_nil, delimitersFrom_nil, delimitersFrom_nil]
  | case3 opened afterBackslash c rest h ih =>
    have ih := ih (mt (Exposes.of_none h) hexposes)
    rw [escapeFrom_of_none h, delimitersFrom_of_none h, ← ih]
    cases opened with
    | some o =>
      -- inside mathematics the character is copied
      exact delimitersFrom_of_none (delimiter?_cons_eq_none h _)
    | none =>
      have hc : c ≠ '$' := by
        rintro rfl
        have hescaped := delimiter?_cons_eq_none_iff.1 h rfl
        exact hexposes ⟨[], rest, rfl, hescaped, by rw [openAfter, delimitersFrom_nil]; rfl⟩
      exact scan_escapeChar_append delimitersFrom_of_ne hc _

/-! ## Signs that are not escaped -/

/-- How many dollar signs of the rest of a text are not escaped. -/
def freeSigns (afterBackslash : Bool) : List Char → Nat
  | [] => 0
  | c :: cs => (if c = '$' ∧ afterBackslash = false then 1 else 0) + freeSigns (c == '\\') cs

theorem freeSigns_of_ne (afterBackslash : Bool) (c : Char) (hc : c ≠ '$') (cs : List Char) :
    freeSigns afterBackslash (c :: cs) = freeSigns (c == '\\') cs := by
  rw [freeSigns, if_neg fun h => hc h.1, Nat.zero_add]

theorem freeSigns_append (cs cs' : List Char) :
    freeSigns afterBackslash (cs ++ cs') =
      freeSigns afterBackslash cs + freeSigns (endsAfterBackslash afterBackslash cs) cs' := by
  induction cs generalizing afterBackslash with
  | nil => exact (Nat.zero_add _).symm
  | cons c cs ih =>
    rw [List.cons_append, freeSigns, freeSigns, ih, endsAfterBackslash_cons, Nat.add_assoc]

theorem freeSigns_chars_append (d : Delimiter) (cs : List Char) :
    freeSigns false (d.chars ++ cs) = d.chars.length + freeSigns false cs := by
  cases d with
  | single => rfl
  | double => exact (Nat.add_assoc 1 1 _).symm

/-- The signs that are not escaped are those of the delimiters. -/
theorem length_delimitersFrom (afterBackslash : Bool) (cs : List Char) :
    ((delimitersFrom afterBackslash cs).flatMap Delimiter.chars).length =
      freeSigns afterBackslash cs := by
  induction afterBackslash, cs using delimitersFrom.induct with
  | case1 afterBackslash cs d rest h ih =>
    obtain ⟨rfl, rfl, _⟩ := delimiter?_eq_some_iff.1 h
    rw [delimitersFrom_of_some h, freeSigns_chars_append, List.flatMap_cons,
      List.length_append, ih]
  | case2 afterBackslash h =>
    rw [delimitersFrom_nil]
    rfl
  | case3 afterBackslash c rest h ih =>
    have hescaped : ¬(c = '$' ∧ afterBackslash = false) := by
      rintro ⟨hc, hfree⟩
      cases hfree.symm.trans (delimiter?_cons_eq_none_iff.1 h hc)
    rw [delimitersFrom_of_none h, freeSigns, if_neg hescaped, Nat.zero_add, ih]

/-- Escaping leaves every sign free that was. -/
theorem freeSigns_le_escapeFrom (opened : Option Delimiter) (afterBackslash : Bool)
    (cs : List Char) :
    freeSigns afterBackslash cs ≤
      freeSigns (opened.isSome && afterBackslash) (escapeFrom opened afterBackslash cs) := by
  induction opened, afterBackslash, cs using escapeFrom.induct with
  | case1 opened afterBackslash cs d rest h ih =>
    obtain ⟨rfl, rfl, _⟩ := delimiter?_eq_some_iff.1 h
    rw [Bool.and_false] at ih ⊢
    rw [escapeFrom_of_some h, freeSigns_chars_append, freeSigns_chars_append]
    exact Nat.add_le_add_left ih _
  | case2 opened afterBackslash h => exact Nat.zero_le _
  | case3 opened afterBackslash c rest h ih =>
    rw [escapeFrom_of_none h]
    cases opened with
    | some o => exact Nat.add_le_add_left ih _
    | none =>
      by_cases hc : c = '$'
      · subst hc
        rw [delimiter?_cons_eq_none_iff.1 h rfl]
        exact Nat.add_le_add (Nat.zero_le 1) ih
      · rw [freeSigns_of_ne _ _ hc]
        exact ih.trans_eq (scan_escapeChar_append freeSigns_of_ne hc _).symm

/-! ## Labels that keep their delimiters -/

/-- Whether a label has a backslash and a dollar sign after it where no mathematics is open. -/
def ExposesSign (s : String) : Prop :=
  ∃ before after, s.toList = before ++ '\\' :: '$' :: after ∧ openAfter none false before = none

theorem Exposes.exposesSign {s : String} (h : Exposes none false s.toList) : ExposesSign s := by
  obtain ⟨before, after, htext, hends, hopen⟩ := h
  obtain rfl | ⟨before, c, rfl⟩ := before.eq_nil_or_concat'
  · cases hends
  · rw [endsAfterBackslash, List.getLast?_concat] at hends
    obtain rfl : c = '\\' := by simpa using hends
    refine ⟨before, after, by simpa using htext, ?_⟩
    rwa [openAfter, delimitersFrom_append_cons (by decide), delimitersFrom_nil,
      List.append_nil] at hopen

/-- What is written for a label that exposes a sign: the backslash becomes a word. -/
theorem escapeFrom_exposed {before : List Char} (hopen : openAfter none false before = none)
    (after : List Char) :
    escapeFrom none false (before ++ '\\' :: '$' :: after) =
      escapeFrom none false before ++ (escapeChar '\\' ++ '$' :: escapeFrom none false after) := by
  have hsign : escapeFrom none true ('$' :: after) = '$' :: escapeFrom none false after :=
    escapeFrom_of_none (delimiter?_cons_eq_none_iff.2 fun _ => rfl)
  rw [escapeFrom_append_cons (by decide), hopen, writeText_cons, writeText_nil, List.append_nil]
  exact congrArg (fun cs => escapeFrom none false before ++ (escapeChar '\\' ++ cs)) hsign

/-- The word for a backslash sets free the sign that the backslash escaped. -/
theorem ExposesSign.freeSigns_lt {s : String} (h : ExposesSign s) :
    freeSigns false s.toList < freeSigns false (escape s).toList := by
  obtain ⟨before, after, htext, hopen⟩ := h
  have hbefore := freeSigns_le_escapeFrom none false before
  have hafter := freeSigns_le_escapeFrom none false after
  have hsign (b : Bool) (cs : List Char) : freeSigns b ('\\' :: '$' :: cs) = freeSigns false cs :=
    (freeSigns_of_ne b _ (by decide) _).trans (Nat.zero_add _)
  have hword (b : Bool) (cs : List Char) :
      freeSigns b (escapeChar '\\' ++ '$' :: cs) = 1 + freeSigns false cs :=
    scan_escapeChar_append freeSigns_of_ne (by decide) _
  rw [escape, String.toList_ofList, htext, escapeFrom_exposed hopen, freeSigns_append,
    freeSigns_append, hsign, hword]
  rw [Bool.and_false] at hbefore hafter
  omega

/-- The delimiters of what is written for a label are those of the label exactly when no escaped
dollar sign stands outside mathematics. -/
theorem delimiters_escape_iff (s : String) :
    delimiters (escape s) = delimiters s ↔ ¬ExposesSign s := by
  constructor
  · intro heq hexposes
    have hlt := hexposes.freeSigns_lt
    rw [← length_delimitersFrom, ← length_delimitersFrom] at hlt
    exact absurd (congrArg (fun ds => (ds.flatMap Delimiter.chars).length) heq) hlt.ne'
  · intro hexposes
    rw [delimiters, escape, String.toList_ofList]
    exact delimitersFrom_escapeFrom (mt Exposes.exposesSign hexposes)

/-- An escaped dollar sign alone becomes a delimiter. -/
theorem delimiters_escape_sign :
    escape "\\$" = "\\textbackslash\x7b\x7d$" ∧ delimiters "\\$" = [] ∧
      delimiters (escape "\\$") = [.single] ∧ delimiters (escape "\\$") ≠ delimiters "\\$" := by
  decide +kernel

end Planar.Markup
