import PascalAtlas.Proofs.Cuts
import PascalAtlas.Proofs.Rendered

/-!
# Members in the masked text

The scanner tells the members of a class apart by three patterns: one for properties, one for
methods, one for fields. A heading of a blueprint fits only the second and a field only the third,
and the groups give back what was written (`Blueprint.Member.memberOf_text`).
-/

namespace PascalAtlas

open Cursor (between)

namespace Pattern

variable {o : Nat} {front rest : Text} {caps caps' : Captures}

/-! ## Names -/

theorem takes_nameStart {c : Char} (hc : Token.isIdentStart c = true) :
    nameStart.Takes o front [c] rest caps caps := by
  rw [Token.isIdentStart] at hc
  refine takes_char ?_
  rw [hc]
  rfl

/-- A name is taken as far as it goes. -/
theorem takes_name (x : PlainName) (hrest : rest.head?.any Text.isWordChar = false) :
    name.Takes o front x.text rest caps caps := by
  obtain ⟨c, cs, htext, hc, hcs⟩ := x.exists_cons
  have hothers : ∀ d ∈ cs, Text.isWordChar d = true :=
    fun d hd => Text.isWordChar_of_isIdentChar (hcs d hd)
  rw [htext]
  exact (takes_nameStart hc).seq (takes_many hothers hrest)

/-- Whether a character may stand inside a dotted name. -/
def isDotted (c : Char) : Bool :=
  Text.isWordChar c || c == '.'

/-- A name with dots is taken as far as it goes. -/
theorem takes_dottedName (d : DottedName) (hrest : rest.head?.any isDotted = false) :
    dottedName.Takes o front d.text rest caps caps := by
  obtain ⟨c, cs, htext, hc, hcs⟩ := d.first.exists_cons
  have hdotted : ∀ e ∈ cs ++ d.others.flatMap (fun part => '.' :: part.text),
      isDotted e = true := by
    intro e he
    obtain he | he := List.mem_append.1 he
    · rw [isDotted, Text.isWordChar_of_isIdentChar (hcs e he)]
      rfl
    · obtain ⟨part, -, he⟩ := List.mem_flatMap.1 he
      obtain rfl | he := List.mem_cons.1 he
      · rfl
      · rw [isDotted, Text.isWordChar_of_isIdentChar (part.isIdentChar_of_mem he)]
        rfl
  rw [DottedName.text, htext]
  exact (takes_nameStart hc).seq (takes_many hdotted hrest)

/-- Anything up to the end, if there is a name. -/
theorem takes_toEnd (x : PlainName) :
    (atLeastOne (.char fun _ => true)).Takes o front x.text [] caps caps := by
  obtain ⟨c, cs, htext, -⟩ := x.exists_cons
  rw [htext]
  exact takes_atLeastOne (by simp) rfl

end Pattern

/-- A name does not begin with a blank. -/
theorem PlainName.head_not_blank (x : PlainName) (rest : Text) :
    (x.text ++ rest).head?.any Text.isBlank = false := by
  obtain ⟨c, cs, htext, -⟩ := x.exists_cons
  rw [htext]
  exact x.not_blank c (by simp [htext])

/-- A name without dots is its own last part. -/
theorem PlainName.lastPart_text (x : PlainName) : Scanner.lastPart x.text = x.text := by
  have hnone : Text.cutAtLast? (· == '.') x.text = none := by
    rw [Text.cutAtLast?, Text.cutAt?_eq_none]
    · rfl
    · intro c hc
      simpa using x.ne_of_mem (List.mem_reverse.1 hc) (by decide)
  rw [Scanner.lastPart, hnone]

/-- A name does not begin with a blank. -/
theorem DottedName.head_not_blank (d : DottedName) (rest : Text) :
    (d.text ++ rest).head?.any Text.isBlank = false := by
  rw [text, List.append_assoc]
  exact d.first.head_not_blank _

namespace Blueprint

open Pattern

variable {o : Nat} {front rest y : Text} {caps caps' : Captures}

/-- The word that opens a heading is taken in all patterns that look for one. -/
theorem RoutineForm.takes_word (f : RoutineForm) {q : Pattern}
    (hq : q.Takes o (front ++ f.kind.word.toList ++ [' ']) y rest
      ((1, ⟨o + Text.size front, o + Text.size (front ++ f.kind.word.toList), f.kind.word.toList⟩)
        :: caps) caps')
    (hy : (y ++ rest).head?.any Text.isBlank = false) :
    (Pattern.seq (.optional (.seq (.word "class") .gap))
        (.seq (.group 1 (.words Scanner.routineWords)) (.seq .gap q))).Takes
      o front (f.kind.word.toList ++ ' ' :: y) rest caps caps' := by
  have hspells := spells_self f.word_isLower
  have hlower : ∀ v ∈ Scanner.routineWords, v.toList.all Char.isLower = true := by decide
  have hapart : ∀ v ∈ Scanner.routineWords, ∀ w ∈ Scanner.routineWords, v = w
    ∨ clash v w = true := by decide
  have hclass : ∀ w ∈ Scanner.routineWords, clash "class" w = true := by decide
  have hnone : ∀ x z, f.kind.word.toList ++ ' ' :: y ++ rest = x ++ z →
      ¬ (Pattern.seq (.word "class") .gap).Fits front x z := by
    rintro x z htext ⟨v, b, rfl, hv, -⟩
    rw [List.append_assoc, List.append_assoc] at htext
    exact not_spells_of_clash (by decide) f.word_isLower (hclass _ f.word_mem) hspells htext
      (spells_of_fits hv)
  have hword : (Pattern.group 1 (.words Scanner.routineWords)).Takes o front f.kind.word.toList
      (' ' :: y ++ rest) caps _ :=
    (takes_words f.word_mem hlower (fun v hv => hapart v hv _ f.word_mem) hspells).group 1
  have hgap : Pattern.gap.Takes o (front ++ f.kind.word.toList) [' '] (y ++ rest)
      ((1, ⟨o + Text.size front, o + Text.size (front ++ f.kind.word.toList), f.kind.word.toList⟩)
        :: caps) _ :=
    takes_atLeastOne (by decide) hy
  exact (takes_optional_nil hnone).after_nil (hword.seq (hgap.seq hq))

/-! ## Members -/

/-- What a text declares as a member of a class. -/
def Member.declared (extent : Extent) : Member → Scanner.Member
  | .inl f => .fields [⟨f.name.text, f.type.text, extent⟩]
  | .inr r => .method (r.declared.withExtent extent)

theorem opensWith_propertyMember : Scanner.propertyMember.OpensWith ["property"] :=
  LeadsWith.opens_first (spelled_word.leadsWith breaks_gap.seq (by decide))

/-- A section is opened by the word of its visibility. -/
theorem opensWith_visibility :
    Scanner.visibility.OpensWith
      ["strict", "private", "protected", "public", "published", "automated"] := by
  have hstrict : (Pattern.seq (.word "strict") .gap).LeadsWith ["strict"] :=
    spelled_word.leadsWith breaks_gap (by decide)
  exact (hstrict.optional (spelled_words.leadsWith breaks_boundary.seq (by decide))).seq.opens_first

/-- A method of the class begins with `class`. -/
theorem leadsWith_classGap : (Pattern.seq (.word "class") .gap).LeadsWith ["class"] :=
  spelled_word.leadsWith breaks_gap (by decide)

/-- A method opens with a word of routines, or with `class`. -/
theorem opensWith_methodMember : Scanner.methodMember.OpensWith ("class" :: Scanner.routineWords) :=
  (leadsWith_classGap.optional
    ((spelled_words.group 1).leadsWith breaks_gap.seq (by decide))).opens_first

/-- The groups of a heading with the one for its result, if there is one. -/
def RoutineForm.withResult (o : Nat) (front : Text) (f : RoutineForm) (caps : Captures) :
    Captures :=
  match f.result? with
  | none => caps
  | some result =>
    (4, ⟨o + Text.size (front ++ [':'] ++ [' ']),
        o + Text.size (front ++ [':'] ++ [' '] ++ result.text), result.text⟩)
      :: caps

/-- The result is taken to the end of the member. -/
theorem RoutineForm.takes_result (f : RoutineForm) :
    (Pattern.seq .blanks (.seq
        (.optional (.all [.sign ':', .blanks, .group 4 (.atLeastOne (.char fun _ => true))]))
      .last)).Takes o front f.renderResult [] caps (f.withResult o front caps) := by
  rw [renderResult, withResult]
  cases f.result? with
  | none =>
    refine Takes.after_nil (takes_many (by simp) rfl)
      (Takes.after_nil (takes_optional_nil ?_) takes_last)
    rintro y z hnil ⟨_, _, rfl, ⟨c, rfl, -⟩, -⟩
    cases hnil
  | some result =>
    have hcolon : (Pattern.sign ':').Takes o front [':'] ([' '] ++ result.text ++ []) caps caps :=
      takes_char rfl
    have hspace : Pattern.blanks.Takes o (front ++ [':']) [' '] (result.text ++ []) caps caps :=
      takes_many (by decide) (result.head_not_blank [])
    have hresult := hcolon.seq (hspace.seq ((takes_toEnd result).group 4))
    exact Takes.after_nil (takes_many (by simp) rfl) (hresult.optional.then_nil takes_last)

/-- **A heading inside a class** is found as a method. -/
theorem Routine.find?_methodMember (r : Routine) :
    ∃ m, Scanner.methodMember.find? (r.headingText none) = some m
      ∧ m.groupText 1 = r.form.kind.word.toList
      ∧ m.groupText 2 = r.name.text ∧ m.groupText 3 = r.renderParams
      ∧ m.groupText 4 = (r.form.result?.map PlainName.text).getD [] := by
  have hclose : ')' ∉ r.form.renderResult := r.form.of_renderResult.not_mem (by decide) (by decide)
  have htext : r.headingText none = r.form.kind.word.toList ++ ' ' :: ((r.fullName none).text
      ++ ('(' :: (r.renderParams ++ [')']) ++ r.form.renderResult)) := by
    rw [headingText]
    simp
  have hname : (r.fullName none).text = r.name.text := List.append_nil _
  -- The list of parameters goes up to the last closing bracket, and the result has none.
  have hparams (front : Text) (caps : Captures) :
      (Pattern.optional (.all [.sign '(', .group 3 .anything, .sign ')'])).Takes
      0 front ('(' :: (r.renderParams ++ [')'])) (r.form.renderResult ++ []) caps _ :=
    Takes.optional (Takes.seq (x := ['(']) (takes_char rfl)
      (takes_anything_sign 3 (by simpa using hclose)))
  have hblanks (front : Text) (caps : Captures) : Pattern.blanks.Takes 0 front []
      ('(' :: (r.renderParams ++ [')']) ++ r.form.renderResult ++ []) caps caps :=
    takes_many (by simp) rfl
  have hafter (front : Text) (caps : Captures) :=
    (hblanks front caps).after_nil ((hparams front caps).seq r.form.takes_result)
  have htakes := (@takes_first 0 _ []).after_nil (r.form.takes_word
    (((takes_dottedName (r.fullName none) rfl).group 2).seq (hafter _ _)) (by
      rw [List.append_assoc]
      exact (r.fullName none).head_not_blank _))
  rw [← htext] at htakes
  refine ⟨_, Takes.find?_eq htakes, ?_⟩
  simp only [Match.groupText, Match.group?, matchOf, RoutineForm.withResult]
  cases r.form.result? <;> exact ⟨rfl, hname, rfl, rfl⟩

/-- **A field** is found with its name and its type. -/
theorem Field.find?_fieldMember (f : Field) :
    ∃ m, Scanner.fieldMember.find? (Member.text (.inl f)) = some m ∧ m.groupText 1 = f.name.text
      ∧ m.groupText 2 = f.type.text := by
  have htext : Member.text (.inl f) = f.name.text ++ ([':'] ++ ([' '] ++ f.type.text)) :=
    List.append_assoc _ _ _
  -- No second name follows, because there is no comma.
  have hothers : ∀ y z, [':'] ++ ([' '] ++ f.type.text) ++ [] = y ++ z →
      ¬ (Pattern.all [.blanks, .sign ',', .blanks, .name]).Fits f.name.text y z := by
    rintro y z hyz ⟨b, y', rfl, -, _, y'', rfl, ⟨d, rfl, hd⟩, -⟩
    have hmem : ',' ∈ ([':'] ++ ([' '] ++ f.type.text) ++ [] : Text) := by
      rw [hyz, ← beq_iff_eq.1 hd]
      simp
    simp only [List.append_nil, List.mem_append, List.mem_singleton] at hmem
    obtain h | h | h := hmem
    · exact absurd h (by decide)
    · exact absurd h (by decide)
    · exact f.type.ne_of_mem h (by decide) rfl
  have hname : (Pattern.seq .name (.many (.all [.blanks, .sign ',', .blanks, .name]))).Takes
      0 [] f.name.text
      ([':'] ++ ([' '] ++ f.type.text) ++ []) [] [] :=
    (takes_name f.name rfl).then_nil (takes_many_nil hothers)
  have hcolon (caps : Captures) : (Pattern.sign ':').Takes 0 f.name.text [':']
      ([' '] ++ f.type.text ++ []) caps caps :=
    takes_char rfl
  have hspace (caps : Captures) : Pattern.blanks.Takes 0 (f.name.text ++ [':']) [' ']
      (f.type.text ++ []) caps caps :=
    takes_many (by decide) (f.type.head_not_blank [])
  have hnone (caps : Captures) : Pattern.blanks.Takes 0 f.name.text []
      ([':'] ++ ([' '] ++ f.type.text) ++ []) caps caps :=
    takes_many (by simp) rfl
  have hrest (caps : Captures) := (hnone caps).after_nil ((hcolon caps).seq ((hspace caps).seq
    (((takes_toEnd f.type).group 2).then_nil takes_last)))
  have htakes := takes_first.after_nil ((hname.group 1).seq (hrest _))
  rw [← htext] at htakes
  exact ⟨_, Takes.find?_eq htakes, rfl, rfl⟩

/-- The word with which a member begins. -/
def Member.firstWord : Member → Text
  | .inl f => f.name.text
  | .inr r => r.form.kind.word.toList

/-- The first word of a member is what tells the members apart. -/
theorem Member.leadingWord_text (m : Member) (rest : Text) :
    Scanner.leadingWord (m.text ++ rest) = m.firstWord := by
  cases m with
  | inl f =>
    show ((f.name.text ++ ": ".toList ++ f.type.text) ++ rest).takeWhile Text.isIdentChar
      = f.name.text
    rw [List.append_assoc, List.append_assoc]
    exact Text.takeWhile_eq (fun c hc => f.name.isIdentChar_of_mem hc) rfl
  | inr r =>
    show (r.headingText none ++ rest).takeWhile Text.isIdentChar = r.form.kind.word.toList
    rw [Routine.headingText, List.append_assoc]
    refine Text.takeWhile_eq (fun c hc => ?_) rfl
    exact (@RoutineForm.of_word [] r.form c hc).resolve_right List.not_mem_nil

/-- Reserved words other than those for routines. -/
def areOther (ws : List Text) : Bool :=
  ws.all fun w => Text.isReserved w && Scanner.routineWords.all fun r =>
    !Text.eqIgnoreCase r.toList w

/-- **No member begins with another reserved word.** -/
theorem Member.isOneOf_firstWord (m : Member) {ws : List Text} (hws : areOther ws = true) :
    Text.isOneOf m.firstWord ws = false := by
  rw [areOther, List.all_eq_true] at hws
  rw [Text.isOneOf, List.any_eq_false]
  intro w hw hsame
  have hw := hws w hw
  rw [Bool.and_eq_true, List.all_eq_true] at hw
  cases m with
  | inl f =>
    have hreserved := Text.isReserved_of_isPlain f.name.plain
    have hlower : Text.lower f.name.text = Text.lower w := beq_iff_eq.1 hsame
    rw [← Text.isReserved_lower, hlower, Text.isReserved_lower, hw.1] at hreserved
    cases hreserved
  | inr r =>
    have hother := hw.2 _ r.form.word_mem
    rw [Bool.not_eq_true'] at hother
    exact Bool.false_ne_true (hother.symm.trans hsame)

/-- The kind of a routine is known from its word. -/
theorem RoutineForm.ofWord?_word (f : RoutineForm) :
    RoutineKind.ofWord? f.kind.word.toList = some f.kind := by
  generalize f.kind = kind
  cases kind <;> decide

/-- **A member is read back** from its text. -/
theorem Member.memberOf_text (m : Member) (extent : Extent) :
    Scanner.memberOf m.text extent = m.declared extent := by
  -- A member is tried as a property, as a method and as a field, in this order.
  have hproperty : Scanner.propertyMember.find? m.text = none :=
    opensWith_propertyMember.find?_eq_none (by decide) (m.says_text.silent (by decide +kernel))
  rw [Scanner.memberOf, hproperty]
  cases m with
  | inl f =>
    have hmethod : Scanner.methodMember.find? (Member.text (.inl f)) = none :=
      opensWith_methodMember.find?_eq_none (by decide)
        ((@Field.says_text [] f).silent (by decide +kernel))
    have hdirective : Text.isOneOf (Scanner.leadingWord (Member.text (.inl f))) Grammar.directives
        = false := by
      have hword := Member.leadingWord_text (.inl f) []
      rw [List.append_nil] at hword
      rw [hword]
      exact Member.isOneOf_firstWord _ (by decide +kernel)
    obtain ⟨found, hfield, hname, htype⟩ := f.find?_fieldMember
    have hsplit : Text.splitBy (· == ',') f.name.text = [f.name.text] :=
      Text.splitBy_eq_self fun c hc => by simpa using f.name.ne_of_mem hc (by decide)
    simp only [hmethod, hdirective, hfield, hname, htype, hsplit, List.map_singleton,
      Text.trim_eq_of_not_blank f.name.not_blank, Text.squeeze_eq_of_not_blank f.type.not_blank]
    rfl
  | inr r =>
    obtain ⟨found, hmethod, hword, hname, hparams, hresult⟩ := r.find?_methodMember
    have hsqueeze : Text.squeeze ((r.form.result?.map PlainName.text).getD [])
        = (r.form.result?.map PlainName.text).getD [] := by
      cases r.form.result? with
      | none => rfl
      | some type => exact Text.squeeze_eq_of_not_blank type.not_blank
    have hheading := r.heading_declared
    have hmethod : Scanner.methodMember.find? (Member.text (.inr r)) = some found := hmethod
    simp only [hmethod, hword, hname, hparams, hresult, hsqueeze, r.form.ofWord?_word,
      Option.getD_some, PlainName.lastPart_text]
    exact congrArg (fun r => Scanner.Member.method (r.withExtent extent)) hheading

end Blueprint

end PascalAtlas
