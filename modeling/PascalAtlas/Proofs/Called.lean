import PascalAtlas.Proofs.Assigned
import PascalAtlas.Proofs.Registered

/-!
# What a call keeps of its text

A call is cut at the first `(` and at the last `)` of its text, whichever these are. Where its
parentheses are balanced outside of literals there is a `)` behind the first `(`, so that a callee
and arguments are found (`SimpleForm.exists_cut`). Everything up to the last `)` is in one of the
two. But this need not be the parenthesis that belongs to the first one: something may follow it,
which is **lost**, or the arguments may end inside of a literal or of another call
(`SimpleForm.call_loses_text`).

So a call can be put together again exactly if it is a **single** one: it has no parentheses, or the
text between the first one and the end of the text is balanced and then closed
(`SimpleForm.call_whole_iff`).
-/

namespace PascalAtlas.SimpleForm

open Text (MadeOf isParen unquoted)

variable {text head inner lost rest : Text}

/-! ## The two cuts -/

/-- Without a parenthesis the whole text is the callee. -/
theorem splitCall_of_notMem (h : '(' ∉ text) : splitCall text = (text, []) := by
  rw [splitCall, Text.cutAt?_eq_none (Text.beq_of_notMem h)]

/-- A call is cut at its first `(` and its last `)`, and what follows is lost. -/
theorem splitCall_append (hhead : '(' ∉ head) (hlost : ')' ∉ lost) (inner : Text) :
    splitCall (head ++ '(' :: (inner ++ ')' :: lost)) = (head, inner) := by
  rw [splitCall, Text.cutAt?_append (Text.beq_of_notMem hhead) rfl]
  simp only [Text.cutAtLast?_append hlost]

/-- Before the first parenthesis of a call stands **nothing but** a dotted name and blanks. -/
theorem notMem_of_isCallShaped (hhead : '(' ∉ head)
    (h : isCallShaped (head ++ '(' :: rest) = true) {c : Char} (hblank : Text.isBlank c = false)
    (hcallee : isCalleeChar c = false) : c ∉ head := by
  have hbefore : beforeParen (head ++ '(' :: rest) = head := by
    rw [beforeParen, List.takeWhile_append_of_pos fun d hd => ?_]
    · simp
    · rw [bne_iff_ne]
      rintro rfl
      exact hhead hd
  rw [isCallShaped, hbefore, Bool.and_eq_true] at h
  intro hmem
  have hall := List.all_eq_true.1 h.2 c (Text.mem_trim hmem hblank)
  rw [hcallee] at hall
  cases hall

/-- Behind the first parenthesis of a balanced call **one is closed**. -/
theorem close_mem_of_balanced (hhead : '(' ∉ head)
    (hshape : isCallShaped (head ++ '(' :: rest) = true)
    (hbalanced : Text.Balanced (head ++ '(' :: rest)) : ')' ∈ rest := by
  have hquote : '\'' ∉ head := notMem_of_isCallShaped hhead hshape rfl rfl
  have hclose : ')' ∉ head := notMem_of_isCallShaped hhead hshape rfl rfl
  have hplain : ∀ c ∈ head, isParen c = false := by
    intro c hc
    refine Bool.eq_false_iff.2 fun hparen => ?_
    obtain rfl | rfl : c = '(' ∨ c = ')' := by simpa [isParen] using hparen
    · exact hhead hc
    · exact hclose hc
  -- So the first parenthesis is outside of literals, and it is the first that counts.
  have hparens : unquoted isParen (head ++ '(' :: rest) = '(' :: unquoted isParen rest := by
    rw [Text.unquoted_fail_append hplain hquote, ← List.singleton_append,
      Text.unquoted_append (Text.outside_of_notMem (by decide))]
    rfl
  have hlevel := hbalanced.level
  rw [hparens, List.count_cons_self, List.count_cons_of_ne (by decide)] at hlevel
  have hmem : ')' ∈ unquoted isParen rest := List.count_pos_iff.1 (by omega)
  exact (Text.mem_of_mem_unquoted hmem).1

/-- A balanced call has **no parentheses**, or is cut at the first one and at the last one. -/
theorem exists_cut (hbalanced : Text.Balanced text) (hshape : isCallShaped text = true) :
    ('(' ∉ text ∧ splitCall text = (text, []))
      ∨ ∃ head inner lost, text = head ++ '(' :: (inner ++ ')' :: lost) ∧ '(' ∉ head ∧ ')' ∉ lost
        ∧ splitCall text = (head, inner) := by
  by_cases hopen : '(' ∈ text
  · obtain ⟨head, rest, rfl, hhead⟩ := List.eq_append_cons_of_mem hopen
    obtain ⟨inner, lost, rfl, hlost⟩ :=
      Text.exists_last (close_mem_of_balanced hhead hshape hbalanced)
    exact .inr ⟨head, inner, lost, rfl, hhead, hlost, splitCall_append hhead hlost inner⟩
  · exact .inl ⟨hopen, splitCall_of_notMem hopen⟩

/-! ## Putting a call together -/

/-- A text is **whole** in a callee and arguments: up to blanks it is the callee alone, or the
callee with the arguments in parentheses, and the arguments are balanced. -/
def Whole (text callee arguments : Text) : Prop :=
  (arguments = [] ∧ MadeOf [callee] text ∨ MadeOf [callee, "(".toList, arguments, ")".toList] text)
    ∧ Text.Balanced arguments

/-- A text is a **single** call: it has no parentheses, or ends with the one that
closes its first one. -/
def Single (text : Text) : Prop :=
  '(' ∉ text ∨ ∃ head inner, text = head ++ '(' :: (inner ++ [')']) ∧ '(' ∉ head
    ∧ Text.Balanced inner

theorem madeOf_call {pieces : List Text} (h : MadeOf pieces lost) (head inner : Text) :
    MadeOf (Text.trim head :: "(".toList :: Text.trim inner :: ")".toList :: pieces)
      (head ++ '(' :: (inner ++ ')' :: lost)) :=
  (((h.cons_self _).cons_trim inner).cons_self _).cons_trim head

/-- Where a text is cut, it is whole if **nothing is lost** and what is inside is balanced. -/
theorem whole_iff (htrim : Text.trim text = text)
    (htext : text = head ++ '(' :: (inner ++ ')' :: lost)) (hhead : '(' ∉ head) :
    Whole text (Text.trim head) (Text.trim inner) ↔ lost = [] ∧ Text.Balanced inner := by
  constructor
  · rintro ⟨⟨-, hmade⟩ | hmade, hbalanced⟩
    · -- The callee alone has no parenthesis.
      have hopen : '(' ∈ Text.inked text := List.mem_filter.2 ⟨by simp [htext], rfl⟩
      rw [hmade.inked_eq, List.flatten_singleton] at hopen
      exact absurd (Text.mem_of_mem_trim (List.mem_filter.1 hopen).1) hhead
    · -- With what is lost the text is longer than without it, but for blanks.
      have hall := (madeOf_call (Text.madeOf_self lost) head inner).inked_eq
      have hpieces : [Text.trim head, "(".toList, Text.trim inner, ")".toList, lost].flatten
          = [Text.trim head, "(".toList, Text.trim inner, ")".toList].flatten ++ lost := by simp
      rw [← htext, hmade.inked_eq, hpieces, Text.inked_append, List.self_eq_append_right,
        Text.inked_eq_nil_iff] at hall
      have hsplit : text = (head ++ '(' :: (inner ++ [')'])) ++ lost := by simp [htext]
      exact ⟨Text.eq_nil_of_blanks (hsplit ▸ htrim) hall, Text.balanced_trim_iff.1 hbalanced⟩
  · rintro ⟨rfl, hbalanced⟩
    refine ⟨.inr ?_, Text.balanced_trim_iff.2 hbalanced⟩
    rw [htext]
    exact madeOf_call (.nil (by decide)) head inner

/-- A text that is cut is a single call if nothing is lost and the arguments are balanced. -/
theorem single_iff (htext : text = head ++ '(' :: (inner ++ ')' :: lost)) (hhead : '(' ∉ head)
    (hlost : ')' ∉ lost) :
    Single text ↔ lost = [] ∧ Text.Balanced inner := by
  constructor
  · rintro (hopen | ⟨head', inner', htext', hhead', hbalanced⟩)
    · exact absurd (by simp [htext]) hopen
    · -- There is one first `(` and one last `)`.
      have hsplit := splitCall_append hhead' List.not_mem_nil inner'
      rw [← htext', htext, splitCall_append hhead hlost] at hsplit
      obtain ⟨rfl, rfl⟩ := Prod.mk.inj hsplit
      rw [htext] at htext'
      exact ⟨by simpa using htext', hbalanced⟩
  · rintro ⟨rfl, hbalanced⟩
    exact .inr ⟨head, inner, htext, hhead, hbalanced⟩

/-! ## Calls -/

/-- Only texts in the shape of a call become calls, and of these the two parts. -/
theorem isCallShaped_of_call {t callee arguments : Text} (h : ofText t = .call callee arguments) :
    isCallShaped (Text.trim t) = true ∧ callee = Text.trim (splitCall (Text.trim t)).1
      ∧ arguments = Text.trim (splitCall (Text.trim t)).2 := by
  cases hcut : cutOutside? ":=".toList 0 false (Text.trim t) with
  | some parts =>
    rw [ofText_of_cut hcut] at h
    cases h
  | none =>
    rw [ofText_of_uncut hcut] at h
    split at h
    next hshape =>
      obtain ⟨rfl, rfl⟩ := SimpleForm.call.inj h
      exact ⟨hshape, rfl, rfl⟩
    next => cases h

/-- **A call keeps its text exactly if it is a single one.** Let the parentheses of a text be
balanced outside of literals, and let the text be a call. Up to blanks, the callee and the
arguments make up the whole text, with balanced arguments, if and only if the text has no
parentheses or ends with the one that closes its first one. In any other case what they do not have
is behind the last `)` of the text. -/
theorem call_whole_iff {t callee arguments : Text} (hbalanced : Text.Balanced t)
    (hcall : ofText t = .call callee arguments) :
    (Whole (Text.trim t) callee arguments ↔ Single (Text.trim t))
      ∧ (arguments = [] ∧ callee = Text.trim t
        ∨ ∃ lost, ')' ∉ lost
          ∧ MadeOf [callee, "(".toList, arguments, ")".toList, lost] (Text.trim t)) := by
  obtain ⟨hshape, rfl, rfl⟩ := isCallShaped_of_call hcall
  obtain ⟨hopen, hsplit⟩ | ⟨head, inner, lost, htext, hhead, hlost, hsplit⟩ :=
    exists_cut (Text.balanced_trim_iff.2 hbalanced) hshape
  · have hcallee : Text.trim (Text.trim t) = Text.trim t := Text.trim_trim t
    rw [hsplit]
    have hwhole : Whole (Text.trim t) (Text.trim (Text.trim t)) [] := by
      rw [hcallee]
      exact ⟨.inl ⟨rfl, Text.madeOf_self _⟩, by decide⟩
    exact ⟨iff_of_true hwhole (.inl hopen), .inl ⟨rfl, hcallee⟩⟩
  · rw [hsplit]
    refine ⟨?_, .inr ⟨lost, hlost, ?_⟩⟩
    · exact (whole_iff (Text.trim_trim t) htext hhead).trans (single_iff htext hhead hlost).symm
    · rw [htext]
      exact madeOf_call (Text.madeOf_self lost) head inner

/-- A call inside the arguments, and parentheses inside of literals. -/
theorem call_whole_iff_nested :
    Text.Balanced " Show( Ask(')', x), '((' ) ".toList
      ∧ ofText " Show( Ask(')', x), '((' ) ".toList = .call "Show".toList "Ask(')', x), '(('".toList
      ∧ Whole (Text.trim " Show( Ask(')', x), '((' ) ".toList) "Show".toList
        "Ask(')', x), '(('".toList := by
  have hbalanced : Text.Balanced " Show( Ask(')', x), '((' ) ".toList := by decide
  have hcall : ofText " Show( Ask(')', x), '((' ) ".toList
    = .call "Show".toList "Ask(')', x), '(('".toList := by decide
  have hsingle : Single (Text.trim " Show( Ask(')', x), '((' ) ".toList) :=
    .inr ⟨"Show".toList, " Ask(')', x), '((' ".toList, by decide, by decide, by decide⟩
  exact ⟨hbalanced, hcall, (call_whole_iff hbalanced hcall).1.2 hsingle⟩

/-- What is called on the result of a call is **lost**. -/
theorem call_loses_text :
    Text.Balanced "Foo(a).Bar".toList ∧ ofText "Foo(a).Bar".toList = .call "Foo".toList "a".toList
      ∧ ¬ Whole (Text.trim "Foo(a).Bar".toList) "Foo".toList "a".toList := by
  refine ⟨by decide, by decide, ?_⟩
  rintro ⟨⟨hnil, -⟩ | hmade, -⟩
  · cases hnil
  · exact absurd hmade.inked_eq (by decide)

end PascalAtlas.SimpleForm
