import Mathlib.Data.List.DropRight
import Mathlib.Tactic.Common

/-!
# Tokens

`av_get_token` reads the description of a filter graph token by token: up to a terminating
character, without the spaces around it, and with `\` and `'` to take characters literally.
`av_bprint_escape` is the other direction. Whatever is escaped is read back as it was, in both
modes, when the terminating characters are among the special ones.

## Main definitions

* `getToken`, `avBprintEscape` — the functions.
* `Stop`, `Sealed` — where a token ends, and what of it is not trimmed.
* `getToken_avBprintEscape` — the round trip.
-/

namespace AudioCrash.Graph

/-- A string. -/
abbrev Text := List Char

/-! ## The functions -/

/-- `WHITESPACES`. -/
def whitespaces : Text := [' ', '\n', '\t', '\r']

def isSpace (c : Char) : Bool := whitespaces.contains c

def quote : Char := '\''
def backslash : Char := '\\'

/-- `s + strspn(s, WHITESPACES)`. -/
def skipSpaces (s : Text) : Text := s.dropWhile isSpace

/-- Where the loop of `av_get_token` stands. -/
inductive Mode where
  | plain
  /-- After a backslash that is not the last character. -/
  | escaped
  /-- In quotation marks. -/
  | quoted

/-- The loop of `av_get_token`: what has been put out, how much of it `end` keeps, and what is
left. -/
def scan (term : Text) : Mode → Text → Text → ℕ → Text × ℕ × Text
  | _, [], out, kept => (out, kept, [])
  | .plain, c :: p, out, kept =>
    if term.contains c then (out, kept, c :: p)
    else if c = backslash ∧ p ≠ [] then scan term .escaped p out kept
    else if c = quote then scan term .quoted p out kept
    else scan term .plain p (out ++ [c]) kept
  | .escaped, c :: p, out, _ => scan term .plain p (out ++ [c]) (out.length + 1)
  | .quoted, c :: p, out, kept =>
    if c = quote then scan term .plain p out out.length
    else scan term .quoted p (out ++ [c]) kept

/-- The loop that drops the spaces at the end. -/
def trim (out : Text) (kept : ℕ) : Text :=
  out.take kept ++ (out.drop kept).rdropWhile isSpace

/-- `av_get_token`: the token, and what is left of `buf`. -/
def getToken (term buf : Text) : Text × Text :=
  let (out, kept, rest) := scan term .plain (skipSpaces buf) [] 0
  (trim out kept, rest)

/-- `AVEscapeMode`, of which `AV_ESCAPE_MODE_AUTO` is the first. -/
inductive EscapeMode where
  | backslash | quote

/-- The `AV_ESCAPE_FLAG_*`. -/
structure EscapeFlags where
  whitespace : Bool
  strict : Bool

/-- Whether a character of the source gets a backslash. -/
def escapes (special : Text) (flags : EscapeFlags) (isFirstLast : Bool) (c : Char) : Bool :=
  let isStrictlySpecial := special.contains c
  let isSpecial := isStrictlySpecial || c == quote || c == backslash ||
    (isSpace c && flags.whitespace)
  isStrictlySpecial || (!flags.strict && (isSpecial || (isSpace c && isFirstLast)))

/-- The loop of `av_bprint_escape` with backslashes. -/
def escapeFrom (special : Text) (flags : EscapeFlags) : Bool → Text → Text
  | _, [] => []
  | isFirst, c :: src =>
    (if escapes special flags (isFirst || src.isEmpty) c then [backslash, c] else [c]) ++
      escapeFrom special flags false src

/-- `av_bprint_escape`. -/
def avBprintEscape (src special : Text) (mode : EscapeMode) (flags : EscapeFlags) : Text :=
  match mode with
  | .quote =>
    [quote] ++ src.flatMap (fun c => if c = quote then [quote, backslash, quote, quote] else [c]) ++
      [quote]
  | .backslash => escapeFrom special flags true src

theorem length_skipSpaces_le (s : Text) : (skipSpaces s).length ≤ s.length :=
  (List.dropWhile_suffix isSpace).length_le

theorem length_scan_le (term : Text) (m : Mode) (p out : Text) (kept : ℕ) :
    (scan term m p out kept).2.2.length ≤ p.length := by
  induction p generalizing m out kept with
  | nil => cases m <;> exact le_rfl
  | cons c p ih =>
    have hle : ∀ m out kept, (scan term m p out kept).2.2.length ≤ (c :: p).length :=
      fun m out kept => (ih m out kept).trans (Nat.le_succ _)
    cases m with
    | plain =>
      rw [scan]
      split_ifs
      · exact le_rfl
      · exact hle _ _ _
      · exact hle _ _ _
      · exact hle _ _ _
    | escaped => exact hle _ _ _
    | quoted =>
      rw [scan]
      split_ifs
      · exact hle _ _ _
      · exact hle _ _ _

theorem length_getToken_le (term buf : Text) : (getToken term buf).2.length ≤ buf.length :=
  (length_scan_le term .plain (skipSpaces buf) [] 0).trans (length_skipSpaces_le buf)

/-! ## Where a token ends -/

/-- The terminating characters are no spaces, and have no meaning of their own. -/
structure Terminators (term : Text) : Prop where
  space : ∀ c ∈ term, isSpace c = false
  quote : quote ∉ term
  backslash : backslash ∉ term

theorem terminators_label : Terminators [']'] := by
  constructor <;> simp [isSpace, whitespaces, Graph.quote, Graph.backslash]

theorem terminators_name : Terminators "=,;[".toList := by
  constructor <;> simp [isSpace, whitespaces, Graph.quote, Graph.backslash]

theorem terminators_args : Terminators "[],;".toList := by
  constructor <;> simp [isSpace, whitespaces, Graph.quote, Graph.backslash]

/-- A token ends here. -/
def Stop (term : Text) (rest : Text) : Prop := ∀ c ∈ rest.head?, c ∈ term

/-- The end of the token is not trimmed. -/
structure Sealed (out : Text) (kept : ℕ) : Prop where
  le : kept ≤ out.length
  last : kept < out.length → ∀ c ∈ out.getLast?, isSpace c = false

section scan
variable {term special : Text} {flags : EscapeFlags} {out rest p : Text} {kept : ℕ} {c : Char}

theorem scan_stop (h : Stop term rest) : scan term .plain rest out kept = (out, kept, rest) := by
  cases rest with
  | nil => rfl
  | cons c rest =>
    have hc : term.contains c = true := List.contains_iff_mem.2 (h c rfl)
    rw [scan, if_pos hc]

theorem scan_plain (hterm : c ∉ term) (hquote : c ≠ quote) (hbackslash : c ≠ backslash) :
    scan term .plain (c :: p) out kept = scan term .plain p (out ++ [c]) kept := by
  have hc : ¬ term.contains c = true := by rwa [List.contains_iff_mem]
  rw [scan, if_neg hc, if_neg fun h => hbackslash h.1, if_neg hquote]

theorem scan_escaped (h : Terminators term) :
    scan term .plain (backslash :: c :: p) out kept =
      scan term .plain p (out ++ [c]) (out.length + 1) := by
  have hterm : ¬ term.contains backslash = true := by
    rw [List.contains_iff_mem]
    exact h.backslash
  rw [scan, if_neg hterm, if_pos ⟨rfl, List.cons_ne_nil c p⟩, scan]

theorem scan_open (h : Terminators term) :
    scan term .plain (quote :: p) out kept = scan term .quoted p out kept := by
  have hterm : ¬ term.contains quote = true := by
    rw [List.contains_iff_mem]
    exact h.quote
  rw [scan, if_neg hterm, if_neg fun h => absurd h.1 (by decide), if_pos rfl]

theorem scan_close :
    scan term .quoted (quote :: p) out kept = scan term .plain p out out.length := by
  rw [scan, if_pos rfl]

theorem scan_literal (hquote : c ≠ quote) :
    scan term .quoted (c :: p) out kept = scan term .quoted p (out ++ [c]) kept := by
  rw [scan, if_neg hquote]

/-- Spaces before the end are put out. -/
theorem scan_spaces (h : Terminators term) {spaces : Text}
    (hspaces : ∀ c ∈ spaces, isSpace c = true) (hrest : Stop term rest) :
    scan term .plain (spaces ++ rest) out kept = (out ++ spaces, kept, rest) := by
  induction spaces generalizing out with
  | nil => rw [List.nil_append, List.append_nil, scan_stop hrest]
  | cons c spaces ih =>
    have hc : isSpace c = true := hspaces c List.mem_cons_self
    have hterm : c ∉ term := by
      intro hmem
      rw [h.space c hmem] at hc
      exact Bool.false_ne_true hc
    have hquote : c ≠ quote := by
      rintro rfl
      exact absurd hc (by decide)
    have hbackslash : c ≠ backslash := by
      rintro rfl
      exact absurd hc (by decide)
    rw [List.cons_append, scan_plain hterm hquote hbackslash,
      ih fun c' hc' => hspaces c' (List.mem_cons_of_mem c hc')]
    simp only [List.append_assoc, List.singleton_append]

/-! ## What is not trimmed -/

theorem Sealed.full (out : Text) : Sealed out out.length :=
  ⟨le_rfl, fun hlt => absurd hlt (lt_irrefl _)⟩

theorem Sealed.concat (hle : kept ≤ out.length) (hc : isSpace c = false) :
    Sealed (out ++ [c]) kept := by
  refine ⟨hle.trans (by simp), fun _ c' hc' => ?_⟩
  rw [List.getLast?_concat, Option.mem_some_iff] at hc'
  rw [← hc']
  exact hc

/-- **The spaces after a sealed token are dropped**, and nothing else. -/
theorem Sealed.trim_append (h : Sealed out kept) {spaces : Text}
    (hspaces : ∀ c ∈ spaces, isSpace c = true) : trim (out ++ spaces) kept = out := by
  have hdrop : (out.drop kept).rdropWhile isSpace = out.drop kept := by
    rw [List.rdropWhile_eq_self_iff]
    intro hne
    have hlt : kept < out.length := by
      rw [← List.length_pos_iff, List.length_drop] at hne
      omega
    have hlast := h.last hlt ((out.drop kept).getLast hne) (by
      rw [List.getLast_drop hne, List.getLast?_eq_getLast_of_ne_nil]
      exact rfl)
    rw [hlast]
    exact Bool.false_ne_true
  have hspaces' : (out.drop kept ++ spaces).rdropWhile isSpace = out.drop kept := by
    rw [List.rdropWhile, List.reverse_append, List.dropWhile_append_of_pos
      fun c hc => hspaces c (List.mem_reverse.1 hc)]
    exact hdrop
  rw [trim, List.take_append_of_le_length h.le, List.drop_append_of_le_length h.le, hspaces',
    List.take_append_drop]

/-! ## The round trip -/

/-- What follows a token. -/
structure Follow (term spaces rest : Text) : Prop where
  spaces : ∀ c ∈ spaces, isSpace c = true
  rest : Stop term rest

/-- A token that is scanned from its first character on, up to what follows. -/
theorem getToken_of_scan {before spaces text s : Text} (hterm : Terminators term)
    (hbefore : ∀ c ∈ before, isSpace c = true) (hfollow : Follow term spaces rest)
    (hhead : ∃ c text', text = c :: text' ∧ isSpace c = false)
    (hscan : ∃ kept, scan term .plain (text ++ (spaces ++ rest)) [] 0 =
      scan term .plain (spaces ++ rest) s kept ∧ Sealed s kept) :
    getToken term (before ++ text ++ spaces ++ rest) = (s, rest) := by
  rcases hhead with ⟨c, text', htext, hc⟩
  rcases hscan with ⟨kept, hscan, hsealed⟩
  have hskip : (text ++ (spaces ++ rest)).dropWhile isSpace = text ++ (spaces ++ rest) := by
    rw [htext, List.cons_append, List.dropWhile_cons_of_neg]
    rw [hc]
    exact Bool.false_ne_true
  rw [getToken, List.append_assoc, List.append_assoc, skipSpaces,
    List.dropWhile_append_of_pos hbefore, hskip, hscan,
    scan_spaces hterm hfollow.spaces hfollow.rest]
  simp only [hsealed.trim_append hfollow.spaces]

/-- No token, but spaces. -/
theorem getToken_spaces {before spaces : Text} (hterm : Terminators term)
    (hbefore : ∀ c ∈ before, isSpace c = true) (hfollow : Follow term spaces rest) :
    getToken term (before ++ [] ++ spaces ++ rest) = ([], rest) := by
  have hrest : rest.dropWhile isSpace = rest := by
    cases rest with
    | nil => rfl
    | cons c rest =>
      rw [List.dropWhile_cons_of_neg]
      rw [hterm.space c (hfollow.rest c rfl)]
      exact Bool.false_ne_true
  rw [getToken, List.append_nil, List.append_assoc, skipSpaces,
    List.dropWhile_append_of_pos hbefore, List.dropWhile_append_of_pos hfollow.spaces, hrest,
    scan_stop hfollow.rest]
  rfl

/-- A character that gets no backslash has no meaning, and is no space at either end. -/
theorem of_escapes_eq_false {isFirstLast : Bool} (hstrict : flags.strict = false)
    (h : escapes special flags isFirstLast c = false) :
    c ∉ special ∧ c ≠ quote ∧ c ≠ backslash ∧ (isFirstLast = true → isSpace c = false) := by
  simp only [escapes, hstrict, Bool.not_false, Bool.true_and, Bool.or_eq_false_iff,
    List.contains_eq_mem, decide_eq_false_iff_not, beq_eq_false_iff_ne] at h
  rcases h with ⟨hmem, ⟨⟨⟨-, hquote⟩, hbackslash⟩, -⟩, hedge⟩
  refine ⟨hmem, hquote, hbackslash, fun hfl => ?_⟩
  rwa [hfl, Bool.and_true] at hedge

/-- What is escaped with backslashes is put out as it was. -/
theorem scan_escapeFrom (hterm : Terminators term) (hspecial : ∀ c ∈ term, c ∈ special)
    (hstrict : flags.strict = false) (isFirst : Bool) (src tail : Text)
    (hle : kept ≤ out.length) (hsealed : src = [] → Sealed out kept) :
    ∃ kept', scan term .plain (escapeFrom special flags isFirst src ++ tail) out kept =
      scan term .plain tail (out ++ src) kept' ∧ Sealed (out ++ src) kept' := by
  induction src generalizing isFirst out kept with
  | nil =>
    rw [List.append_nil]
    exact ⟨kept, rfl, hsealed rfl⟩
  | cons c src ih =>
    have hsplit : out ++ c :: src = out ++ [c] ++ src := by
      rw [List.append_assoc, List.singleton_append]
    rw [hsplit, escapeFrom]
    cases hescapes : escapes special flags (isFirst || src.isEmpty) c with
    | true =>
      have hfull : Sealed (out ++ [c]) (out.length + 1) := by
        rw [← List.length_singleton (a := c), ← List.length_append]
        exact Sealed.full _
      rw [if_pos rfl, List.append_assoc, List.cons_append, List.singleton_append,
        scan_escaped hterm]
      exact ih false hfull.le fun _ => hfull
    | false =>
      rcases of_escapes_eq_false hstrict hescapes with ⟨hmem, hquote, hbackslash, hedge⟩
      rw [if_neg Bool.false_ne_true, List.append_assoc, List.singleton_append,
        scan_plain (fun h => hmem (hspecial c h)) hquote hbackslash]
      refine ih false (hle.trans (by simp)) fun hsrc => Sealed.concat hle (hedge ?_)
      rw [hsrc, List.isEmpty_nil, Bool.or_true]

/-- What is escaped starts with no space, and with no special character but for one that it has
been given. -/
theorem avBprintEscape_head (hstrict : flags.strict = false) (mode : EscapeMode) {s : Text}
    (hs : s ≠ []) :
    ∃ c text, avBprintEscape s special mode flags = c :: text ∧ isSpace c = false ∧
      (c = quote ∨ c = backslash ∨ c ∉ special) := by
  cases mode with
  | quote => exact ⟨_, _, rfl, rfl, Or.inl rfl⟩
  | backslash =>
    cases s with
    | nil => exact absurd rfl hs
    | cons c s =>
      rw [avBprintEscape, escapeFrom, Bool.true_or]
      cases hescapes : escapes special flags true c with
      | true => exact ⟨_, _, rfl, rfl, Or.inr (Or.inl rfl)⟩
      | false =>
        rcases of_escapes_eq_false hstrict hescapes with ⟨hmem, -, -, hedge⟩
        exact ⟨c, _, rfl, hedge rfl, Or.inr (Or.inr hmem)⟩

/-- What is put in quotation marks is put out as it was. -/
theorem scan_quoted (hterm : Terminators term) (src tail : Text) :
    ∃ kept', scan term .quoted (src.flatMap
        (fun c => if c = quote then [quote, backslash, quote, quote] else [c]) ++
          quote :: tail) out kept =
      scan term .plain tail (out ++ src) kept' ∧ Sealed (out ++ src) kept' := by
  induction src generalizing out kept with
  | nil =>
    rw [List.flatMap_nil, List.nil_append, scan_close, List.append_nil]
    exact ⟨out.length, rfl, Sealed.full out⟩
  | cons c src ih =>
    have hsplit : out ++ c :: src = out ++ [c] ++ src := by
      rw [List.append_assoc, List.singleton_append]
    rw [hsplit, List.flatMap_cons, List.append_assoc]
    by_cases hquote : c = quote
    · rw [if_pos hquote, hquote]
      simp only [List.cons_append, List.nil_append, scan_close, scan_escaped hterm, scan_open hterm]
      exact ih
    · rw [if_neg hquote, List.singleton_append, scan_literal hquote]
      exact ih

/-- **What is escaped is read back as it was**: with any spaces around it, and up to a
terminating character or the end. -/
theorem getToken_avBprintEscape (hterm : Terminators term) (hspecial : ∀ c ∈ term, c ∈ special)
    (hstrict : flags.strict = false) (mode : EscapeMode) (s : Text) {before spaces : Text}
    (hbefore : ∀ c ∈ before, isSpace c = true) (hfollow : Follow term spaces rest) :
    getToken term (before ++ avBprintEscape s special mode flags ++ spaces ++ rest) =
      (s, rest) := by
  have hhead : s ≠ [] → ∃ c text', avBprintEscape s special mode flags = c :: text' ∧
      isSpace c = false := by
    intro hs
    rcases avBprintEscape_head hstrict mode hs with ⟨c, text, heq, hc, -⟩
    exact ⟨c, text, heq, hc⟩
  cases mode with
  | backslash =>
    by_cases hs : s = []
    · rw [hs]
      exact getToken_spaces hterm hbefore hfollow
    · exact getToken_of_scan hterm hbefore hfollow (hhead hs)
        (scan_escapeFrom hterm hspecial hstrict true s _ le_rfl fun _ => Sealed.full [])
  | quote =>
    refine getToken_of_scan hterm hbefore hfollow ⟨_, _, rfl, rfl⟩ ?_
    simp only [avBprintEscape, List.append_assoc, List.cons_append, List.nil_append,
      scan_open hterm]
    exact scan_quoted hterm s _

end scan

/-- An argument with all that has a meaning, before the label of an output. -/
theorem getToken_avBprintEscape_args :
    getToken "[],;".toList ("  ".toList ++
        avBprintEscape " a,b [c] 'd' ".toList "[],;".toList .backslash ⟨false, false⟩ ++
        " ".toList ++ "[out]".toList) =
      (" a,b [c] 'd' ".toList, "[out]".toList) :=
  getToken_avBprintEscape terminators_args (fun _ hc => hc) rfl .backslash _
    (List.all_eq_true.1 rfl) ⟨List.all_eq_true.1 rfl, by simp [Stop]⟩

end AudioCrash.Graph
