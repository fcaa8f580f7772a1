import PascalAtlas.SourceUnit.OfText
import PascalAtlas.Proofs.Neighbour
import PascalAtlas.Proofs.ParamList
import PascalAtlas.Proofs.Stream

/-!
# Looking around in a text

The scanner knows where it stands by an offset, and looks at what follows it. What **remains** of a
text at an offset (`Text.Remains`) says the same without cutting anything, and each of the small
readers of the scanner has one lemma here that says what it gives for what remains.
-/

namespace PascalAtlas

namespace Text

/-- What **remains** of a text at an offset. -/
def Remains (t : Text) (n : Nat) (rest : Text) : Prop :=
  ∃ front, t = front ++ rest ∧ size front = n

variable {t x rest : Text} {n : Nat}

/-- What remains behind the front of what remains. -/
theorem Remains.right (h : t.Remains n (x ++ rest)) : t.Remains (n + size x) rest := by
  obtain ⟨front, rfl, rfl⟩ := h
  exact ⟨front ++ x, (List.append_assoc _ _ _).symm, size_append _ _⟩

/-- Behind one character the rest of it remains. -/
theorem Remains.next {c : Char} (h : t.Remains n (c :: rest)) (hc : c.utf8Size = 1) :
    t.Remains (n + 1) rest := by
  rw [← hc]
  exact Remains.right (x := [c]) h

/-- What remains is what the offset leaves of the text. -/
theorem Remains.size_eq (h : t.Remains n rest) : size t = n + size rest := by
  obtain ⟨front, rfl, rfl⟩ := h
  exact size_append _ _

/-- What remains is what is left when the text is cut there. -/
theorem Remains.drop?_eq (h : t.Remains n rest) : drop? n t = some rest := by
  obtain ⟨front, rfl, rfl⟩ := h
  exact drop?_append _ _

/-- A slice takes the front of what remains. -/
theorem Remains.slice?_eq (h : t.Remains n (x ++ rest)) : slice? t n (n + size x) = some x := by
  obtain ⟨front, rfl, rfl⟩ := h
  rw [← size_append, ← List.append_assoc]
  exact slice?_three_parts _ _ _

theorem takeWhile_eq {p : Char → Bool} (hx : ∀ c ∈ x, p c = true)
    (hrest : rest.head?.any p = false) :
    (x ++ rest).takeWhile p = x := by
  have hhead : Token.headIs p rest = rest.head?.any p := by cases rest <;> rfl
  exact (Token.takeWhile_append hx (hhead.trans hrest)).1

end Text

namespace Scanner

open Text (Remains size)

variable {t x rest : Text} {n : Nat}

/-- A cut that lies in what remains has no fault. -/
theorem cut_eq (h : t.Remains n (x ++ rest)) : cut t n (n + size x) = .ok x := by
  rw [cut, h.slice?_eq]

/-- Nor has the cut of all that remains. -/
theorem tail_eq (h : t.Remains n rest) : tail t n = .ok rest := by
  rw [tail, h.size_eq]
  exact @cut_eq t rest [] n (by rwa [List.append_nil])

/-- Everything before an offset. -/
theorem cut_front (front rest : Text) : cut (front ++ rest) 0 (size front) = .ok front := by
  have h : Remains (front ++ rest) 0 (front ++ rest) := ⟨[], rfl, rfl⟩
  have hcut := cut_eq h
  rwa [Nat.zero_add] at hcut

/-- Blanks are skipped up to the first character that is none. -/
theorem skipBlanks_eq (h : t.Remains n (x ++ rest)) (hx : ∀ c ∈ x, Text.isBlank c = true)
    (hrest : rest.head?.any Text.isBlank = false) : skipBlanks t n = .ok (n + size x) := by
  have hle : min n (size t) = n := by
    rw [h.size_eq]
    omega
  simp only [skipBlanks, hle, tail_eq h]
  show Except.ok (n + size ((x ++ rest).takeWhile Text.isBlank)) = _
  rw [Text.takeWhile_eq hx hrest]

/-- Where no blank stands there is nothing to skip. -/
theorem skipBlanks_here (h : t.Remains n rest) (hrest : rest.head?.any Text.isBlank = false) :
    skipBlanks t n = .ok n :=
  skipBlanks_eq (x := []) h (by simp) hrest

/-- The word at an offset is the run of characters there. -/
theorem wordAt_eq (h : t.Remains n (x ++ rest)) (hx : ∀ c ∈ x, Text.isIdentChar c = true)
    (hrest : rest.head?.any Text.isIdentChar = false) : wordAt t n = x := by
  rw [wordAt, h.drop?_eq]
  exact Text.takeWhile_eq hx hrest

/-- The character at an offset is the first one that remains. -/
theorem charAt_eq (h : t.Remains n rest) (c : Char) :
    charAt t n c = .ok (rest.head? == some c) := by
  rw [charAt, tail_eq h]
  rfl

/-- Without other parentheses the first `)` closes. -/
theorem closingParen_eq (hx : ∀ c ∈ x, c ≠ '(' ∧ c ≠ ')') (n : Nat) :
    closingParen 1 n (x ++ ')' :: rest) = some (n + size x) := by
  induction x generalizing n with
  | nil =>
    rw [List.nil_append, closingParen]
    rfl
  | cons c cs ih =>
    obtain ⟨hopen, hclose⟩ := hx c (by simp)
    rw [List.cons_append, closingParen, if_neg hopen, if_neg hclose,
      ih fun d hd => hx d (by simp [hd]), size, Nat.add_assoc]

/-- Brackets without brackets inside. -/
theorem matchingParen_eq (h : t.Remains n ('(' :: (x ++ ')' :: rest)))
    (hx : ∀ c ∈ x, c ≠ '(' ∧ c ≠ ')') :
    matchingParen t n = some (n + 1 + size x) := by
  rw [matchingParen, h.drop?_eq]
  show closingParen 0 n ('(' :: (x ++ ')' :: rest)) = _
  rw [closingParen, if_pos rfl]
  exact closingParen_eq hx _

theorem afterSemi_eq (h : t.Remains n (';' :: rest)) : afterSemi t n = .ok (n + 1) := by
  simp only [afterSemi, skipBlanks_here h rfl]
  show (do return if ← charAt t n ';' then n + 1 else n) = Except.ok (n + 1)
  rw [charAt_eq h]
  rfl

/-- The first `;` is found where it stands. -/
theorem semiFrom_eq (h : t.Remains n (x ++ ';' :: rest)) (hx : ';' ∉ x) :
    semiFrom t n = .ok (n + size x) := by
  have hcut : Text.cutAt? (· == ';') (x ++ ';' :: rest) = some (x, rest) :=
    Text.cutAt?_append (fun c hc => by simpa using fun hceq : c = ';' => hx (hceq ▸ hc)) rfl rest
  simp only [semiFrom, tail_eq h, bind, Except.bind, hcut]
  rfl

/-- Whether a sign comes last, blanks aside, can always be told. -/
theorem inTypePosition_ok (h : t.Remains n rest) : ∃ b, inTypePosition t n = .ok b := by
  obtain ⟨front, rfl, rfl⟩ := h
  simp only [inTypePosition, cut_front, bind, Except.bind]
  split
  · exact ⟨true, rfl⟩
  · exact ⟨true, rfl⟩
  · exact ⟨false, rfl⟩

/-- A place is not in type position if another character comes before it. -/
theorem inTypePosition_eq_false {front : Text} {c : Char} (hc : Text.isBlank c = false)
    (heq : c ≠ '=') (hcolon : c ≠ ':') (hx : ∀ d ∈ x, Text.isBlank d = true) (rest : Text) :
    inTypePosition (front ++ c :: x ++ rest) (size (front ++ c :: x)) = .ok false := by
  have htrim : (Text.trimEnd (front ++ c :: x)).getLast? = some c := by
    have hdrop : (x.reverse ++ c :: front.reverse).dropWhile Text.isBlank = c :: front.reverse := by
      rw [List.dropWhile_append_of_pos fun d hd => hx d (List.mem_reverse.1 hd),
        List.dropWhile_cons_of_neg (by rw [hc]; exact Bool.false_ne_true)]
    rw [Text.trimEnd, List.reverse_append, List.reverse_cons, List.append_assoc,
      List.singleton_append, hdrop]
    simp
  simp only [inTypePosition, cut_front, bind, Except.bind, htrim]
  split
  · exact absurd (Option.some.inj ‹_›) heq
  · exact absurd (Option.some.inj ‹_›) hcolon
  · rfl

end Scanner

end PascalAtlas
