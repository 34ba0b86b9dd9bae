import FlowExpr.Proofs.FlowDoc.Blocks
import FlowExpr.Proofs.Text.Trim
import Mathlib.Data.List.Forall2

/-!
# Written documentation is read back

A parameter is documented as `name: type`, and after that, each after a comma, whether it is
required and a description. Both may be left out, so the word that follows the type can belong to
either. It is read as the requirement if it stands alone between commas, whatever it says:

* `FlowParam.Written`, `FlowDoc.Written`: documentation as it is written down;
* `FlowParam.LeadingWord`: a description that begins with a word of its own;
* `FlowParam.read?_written`: a parameter line is read as it was written, apart from such a word;
* `FlowDoc.above?_written`: so is a block with a description and two lists of parameters.
-/

namespace FlowExpr

open Text (byteLength isBlank isAsciiLetter trim trimLeft trimRight)

/-! ## 1. Written parameters -/

/-- A text on one line, without blanks at its ends. -/
structure Text.IsPhrase (cs : List Char) : Prop where
  trimmed : trim cs = cs
  nonempty : cs ≠ []
  oneLine : '\n' ∉ cs

instance (cs : List Char) : Decidable (Text.IsPhrase cs) :=
  decidable_of_iff (trim cs = cs ∧ cs ≠ [] ∧ '\n' ∉ cs)
    ⟨fun ⟨h₁, h₂, h₃⟩ => ⟨h₁, h₂, h₃⟩, fun ⟨h₁, h₂, h₃⟩ => ⟨h₁, h₂, h₃⟩⟩

theorem Text.IsPhrase.trim_append {gap cs : List Char} (h : Text.IsPhrase cs)
    (hgap : ∀ c ∈ gap, isBlank c = true) : trim (gap ++ cs) = cs :=
  (Text.trim_append hgap).trans h.trimmed

theorem Text.IsPhrase.trim_cons {cs : List Char} (h : Text.IsPhrase cs) : trim (' ' :: cs) = cs :=
  Text.IsPhrase.trim_append h fun _ hc => (List.mem_singleton.mp hc) ▸ rfl

namespace FlowParam

/-- A name of one segment, or of more with dots between them. -/
inductive IsName : List Char → Prop where
  | segment {c : Char} {cs : List Char} (start : isSegmentStart c = true)
      (part : ∀ d ∈ cs, isSegmentPart d = true) : IsName (c :: cs)
  | dotted {c : Char} {cs rest : List Char} (start : isSegmentStart c = true)
      (part : ∀ d ∈ cs, isSegmentPart d = true) (h : IsName rest) : IsName (c :: cs ++ '.' :: rest)

/-- The word for a requirement. -/
def requirementWord (mandatory : Bool) : List Char :=
  if mandatory then "mandatory".toList else "optional".toList

/-- A parameter as it is written down. -/
structure Written where
  name : List Char
  typeName : List Char
  requirement : Option Bool
  description : Option (List Char)
  isName : IsName name
  isType : Text.IsPhrase typeName
  noComma : ',' ∉ typeName
  isDescription : ∀ d ∈ description, Text.IsPhrase d

namespace Written

/-- The parts after the type: requirement and description, if there are any. -/
def parts (w : Written) : List (List Char) :=
  (w.requirement.map requirementWord).toList ++ w.description.toList

/-- What is written after the type: each part after a comma. -/
def details (w : Written) : List Char := w.parts.flatMap fun part => ',' :: ' ' :: part

/-- The text of a parameter. -/
def text (w : Written) : List Char := w.name ++ ':' :: ' ' :: (w.typeName ++ w.details)

end Written

/-! ## 2. Names are read back -/

theorem isBlank_of_isSegmentStart {c : Char} (h : isSegmentStart c = true) :
    isBlank c = false := by
  rw [isSegmentStart, Bool.or_eq_true, Bool.or_eq_true, beq_iff_eq, beq_iff_eq] at h
  rcases h with (h | rfl) | rfl
  · exact Text.isBlank_of_isAsciiLetter h
  · decide
  · decide

/-- A segment ends where no part of a segment follows. -/
theorem nameLength_part {cs rest : List Char} (h : ∀ d ∈ cs, isSegmentPart d = true) :
    nameLength true (cs ++ rest) = cs.length + nameLength true rest := by
  induction cs with
  | nil => exact (Nat.zero_add _).symm
  | cons c cs ih =>
    obtain ⟨hc, hcs⟩ := List.forall_mem_cons.mp h
    rw [List.cons_append, nameLength, if_pos hc, ih hcs, List.length_cons]
    omega

theorem IsName.length_pos {name : List Char} (h : IsName name) : 0 < name.length := by
  cases h <;> exact Nat.zero_lt_succ _

/-- **A name is read up to the colon after it.** -/
theorem IsName.nameLength {name : List Char} (h : IsName name) (rest : List Char) :
    FlowParam.nameLength false (name ++ ':' :: rest) = name.length := by
  induction h with
  | @segment c cs hstart hpart =>
    rw [List.cons_append, FlowParam.nameLength, if_pos hstart, nameLength_part hpart]
    rfl
  | @dotted c cs name hstart hpart hname ih =>
    obtain ⟨n, hn⟩ := Nat.exists_eq_succ_of_ne_zero (Nat.ne_of_gt hname.length_pos)
    have hdot : FlowParam.nameLength true ('.' :: (name ++ ':' :: rest)) = name.length + 1 := by
      rw [FlowParam.nameLength, if_neg (by decide), if_pos rfl, ih, hn]
    rw [List.append_assoc, List.cons_append, List.cons_append, FlowParam.nameLength,
      if_pos hstart, nameLength_part hpart, hdot]
    simp only [List.length_append, List.length_cons]
    omega

/-- A name begins with no blank. -/
theorem IsName.exists_cons {name : List Char} (h : IsName name) :
    ∃ c cs, name = c :: cs ∧ isBlank c = false := by
  cases h with
  | segment hstart hpart => exact ⟨_, _, rfl, isBlank_of_isSegmentStart hstart⟩
  | dotted hstart hpart hname => exact ⟨_, _, rfl, isBlank_of_isSegmentStart hstart⟩

theorem IsName.oneLine {name : List Char} (h : IsName name) : '\n' ∉ name := by
  have hsegment : ∀ {c : Char} {cs : List Char}, isSegmentStart c = true →
      (∀ d ∈ cs, isSegmentPart d = true) → '\n' ∉ c :: cs := by
    intro c cs hc hcs
    refine List.not_mem_cons_of_ne_of_not_mem ?_ fun hmem => absurd (hcs _ hmem) (by decide)
    rintro rfl
    exact absurd hc (by decide)
  induction h with
  | segment hc hcs => exact hsegment hc hcs
  | dotted hc hcs hname ih =>
    exact List.not_mem_append (hsegment hc hcs)
      (List.not_mem_cons_of_ne_of_not_mem (by decide) ih)

/-! ## 3. Requirements and descriptions -/

/-- The description begins with a word that ends it or has a comma after it; `left` is what comes
    after the comma. -/
inductive LeadingWord (word : List Char) : (description left : List Char) → Prop where
  | alone : LeadingWord word word []
  | comma {gap rest : List Char} (blank : ∀ c ∈ gap, isBlank c = true) :
      LeadingWord word (word ++ gap ++ ',' :: rest) (trim rest)

/-- A word of letters. -/
structure IsWord (word : List Char) : Prop where
  nonempty : word ≠ []
  letters : ∀ c ∈ word, isAsciiLetter c = true

/-- What is read of a word and the text behind it. -/
def afterWord (word after : List Char) : Tail :=
  match trimLeft after with
  | [] => ⟨word, []⟩
  | ',' :: rest => ⟨word, trim rest⟩
  | _ => ⟨[], trim (word ++ after)⟩

theorem readTail_append {word after : List Char} (h : IsWord word)
    (hafter : after.takeWhile isAsciiLetter = []) :
    readTail (' ' :: (word ++ after)) = afterWord word after := by
  obtain ⟨c, cs, hword⟩ := List.exists_cons_of_ne_nil h.nonempty
  have hc : isBlank c = false :=
    Text.isBlank_of_isAsciiLetter (h.letters c (by rw [hword]; exact List.mem_cons_self))
  have hlead : ∀ d ∈ [' '], isBlank d = true := List.forall_mem_singleton.mpr rfl
  have htext : trimLeft (' ' :: (word ++ after)) = word ++ after := by
    rw [← List.singleton_append, Text.trimLeft_append hlead, hword, List.cons_append,
      Text.trimLeft_cons hc]
  have htake : (word ++ after).takeWhile isAsciiLetter = word := by
    rw [List.takeWhile_append_of_pos h.letters, hafter, List.append_nil]
  have hempty : word.isEmpty = false := by simpa using h.nonempty
  have htrim : trim (' ' :: (word ++ after)) = trim (word ++ after) := Text.trim_append hlead
  unfold readTail
  simp only [htext, htake, hempty, htrim, List.drop_left, Bool.false_eq_true, if_false]
  rfl

/-- A word in front of a comma is the requirement, and the rest is the description. -/
theorem readTail_leadingWord {word description left : List Char} (h : IsWord word)
    (hword : LeadingWord word description left) : readTail (' ' :: description) = ⟨word, left⟩ := by
  cases hword with
  | alone =>
    have hread : readTail (' ' :: (word ++ [])) = ⟨word, []⟩ := readTail_append h rfl
    rwa [List.append_nil] at hread
  | @comma gap rest hgap =>
    have hafter : (gap ++ ',' :: rest).takeWhile isAsciiLetter = [] := by
      cases gap with
      | nil => rfl
      | cons c gap =>
        have hc : ¬isAsciiLetter c = true := fun hletter =>
          absurd (hgap c List.mem_cons_self) (by rw [Text.isBlank_of_isAsciiLetter hletter]; decide)
        rw [List.cons_append, List.takeWhile_cons_of_neg hc]
    have hcomma : trimLeft (gap ++ ',' :: rest) = ',' :: rest := by
      rw [Text.trimLeft_append hgap, Text.trimLeft_cons (by decide)]
    have hread := readTail_append h hafter
    rw [afterWord, hcomma] at hread
    rwa [List.append_assoc]

theorem exists_word (cs : List Char) : ∃ word after, cs = word ++ after ∧
    (∀ c ∈ word, isAsciiLetter c = true) ∧ after.takeWhile isAsciiLetter = [] := by
  refine ⟨_, _, List.takeWhile_append_dropWhile.symm, fun c hc => List.mem_takeWhile_imp hc, ?_⟩
  have hnot := List.head?_dropWhile_not isAsciiLetter cs
  cases hdrop : cs.dropWhile isAsciiLetter with
  | nil => rfl
  | cons c rest =>
    rw [hdrop] at hnot
    exact List.takeWhile_cons_of_neg (by simpa using hnot)

/-- Anything else is the description. -/
theorem readTail_description {description : List Char} (h : Text.IsPhrase description)
    (hword : ∀ word left, IsWord word → ¬LeadingWord word description left) :
    readTail (' ' :: description) = ⟨[], description⟩ := by
  obtain ⟨word, after, rfl, hletters, hafter⟩ := exists_word description
  by_cases hempty : word = []
  · subst hempty
    rw [List.nil_append] at h ⊢
    have hlead : ∀ d ∈ [' '], isBlank d = true := List.forall_mem_singleton.mpr rfl
    have htext : trimLeft (' ' :: after) = after := by
      rw [← List.singleton_append, Text.trimLeft_append hlead, Text.trimLeft_of_trim_eq h.trimmed]
    unfold readTail
    simp only [htext, hafter, h.trim_cons, List.isEmpty_nil, if_true]
  · have hisWord : IsWord word := ⟨hempty, hletters⟩
    have hgap : after.takeWhile isBlank ++ trimLeft after = after :=
      List.takeWhile_append_dropWhile
    have hblank : ∀ c ∈ after.takeWhile isBlank, isBlank c = true := fun c hc =>
      List.mem_takeWhile_imp hc
    rw [readTail_append hisWord hafter, afterWord]
    split
    · -- only blanks follow the word, and a phrase does not end with any
      rename_i hnothing
      rw [hnothing, List.append_nil] at hgap
      obtain rfl := Text.eq_nil_of_trim_eq h.trimmed (hgap ▸ hblank)
      rw [List.append_nil] at hword
      exact absurd .alone (hword word [] hisWord)
    · rename_i rest hcomma
      rw [hcomma] at hgap
      rw [← hgap, ← List.append_assoc] at hword
      exact absurd (.comma hblank) (hword word (trim rest) hisWord)
    · rw [h.trimmed]

/-! ## 4. Parameter lines are read back -/

/-- What is read of a text behind the type. -/
def afterType : List Char → Tail
  | ',' :: rest => readTail rest
  | _ => ⟨[], []⟩

/-- The type ends at the first comma. -/
theorem readDetails_type {typeName rest : List Char} (h : Text.IsPhrase typeName)
    (hcomma : ',' ∉ typeName) (hrest : rest.takeWhile (· ≠ ',') = []) :
    readDetails (' ' :: (typeName ++ rest)) = (typeName, afterType rest) := by
  have hclear : ∀ c ∈ ' ' :: typeName, decide (c ≠ ',') = true := by
    refine List.forall_mem_cons.mpr ⟨by decide, fun c hc => decide_eq_true ?_⟩
    rintro rfl
    exact hcomma hc
  have htake : (' ' :: (typeName ++ rest)).takeWhile (· ≠ ',') = ' ' :: typeName := by
    rw [← List.cons_append, List.takeWhile_append_of_pos hclear, hrest, List.append_nil]
  have hdrop : (' ' :: (typeName ++ rest)).drop (' ' :: typeName).length = rest :=
    List.drop_left
  unfold readDetails
  simp only [htake, hdrop, h.trim_cons]
  rfl

theorem isWord_requirementWord (mandatory : Bool) : IsWord (requirementWord mandatory) := by
  cases mandatory <;> exact ⟨by decide, List.all_eq_true.mp rfl⟩

theorem isMandatory_nil : isMandatory [] = false := by decide

theorem isMandatory_requirementWord (mandatory : Bool) :
    isMandatory (requirementWord mandatory) = mandatory := by
  cases mandatory <;> decide

/-- A parameter is read as it was written, except that a description without a requirement in
    front of it loses a leading word, which is read as the requirement. -/
structure Reads (w : Written) (q : FlowParam) : Prop where
  name : q.name = String.ofList w.name
  typeName : q.typeName = String.ofList w.typeName
  asWritten : (w.requirement = none → ∀ d, w.description = some d →
      ∀ word left, IsWord word → ¬LeadingWord word d left) →
    q.mandatory = (w.requirement == some true) ∧
      q.description = String.ofList (w.description.getD [])
  leadingWord : w.requirement = none → ∀ d, w.description = some d →
    ∀ word left, IsWord word → LeadingWord word d left →
      q.mandatory = isMandatory word ∧ q.description = String.ofList left

namespace Written

variable {w : Written}

/-- What is written after the type begins with a comma. -/
theorem takeWhile_details (w : Written) : w.details.takeWhile (· ≠ ',') = [] := by
  unfold details
  cases w.parts <;> rfl

theorem afterType_none (hrequirement : w.requirement = none) (hdescription : w.description = none) :
    afterType w.details = ⟨[], []⟩ := by
  rw [details, parts, hrequirement, hdescription]
  rfl

theorem afterType_description {d : List Char} (hrequirement : w.requirement = none)
    (hdescription : w.description = some d) : afterType w.details = readTail (' ' :: d) := by
  rw [details, parts, hrequirement, hdescription]
  show readTail (' ' :: (d ++ [])) = _
  rw [List.append_nil]

/-- The word for the requirement is read as such. -/
theorem afterType_requirement {mandatory : Bool} (hrequirement : w.requirement = some mandatory) :
    afterType w.details = ⟨requirementWord mandatory, w.description.getD []⟩ := by
  have hword := isWord_requirementWord mandatory
  cases hdescription : w.description with
  | none =>
    rw [details, parts, hrequirement, hdescription]
    show readTail (' ' :: (requirementWord mandatory ++ [])) = _
    rw [List.append_nil]
    exact readTail_leadingWord hword .alone
  | some d =>
    have hread : readTail (' ' :: (requirementWord mandatory ++ [] ++ ',' :: ' ' :: d)) =
        ⟨requirementWord mandatory, trim (' ' :: d)⟩ :=
      readTail_leadingWord hword (.comma (List.forall_mem_nil _))
    rw [List.append_nil, (w.isDescription d hdescription).trim_cons] at hread
    rw [details, parts, hrequirement, hdescription]
    show readTail (' ' :: (requirementWord mandatory ++ ',' :: ' ' :: (d ++ []))) = _
    rwa [List.append_nil]

end Written

/-- The parts of a parameter line are where they were written. -/
theorem read?_text (w : Written) {gap : List Char} (hgap : ∀ c ∈ gap, isBlank c = true)
    (offset : Nat) : ∃ span, read? offset (gap ++ w.text) =
      some ⟨String.ofList w.name, span, String.ofList w.typeName,
        isMandatory (afterType w.details).requirement,
        String.ofList (afterType w.details).description⟩ := by
  obtain ⟨c, cs, hname, hc⟩ := w.isName.exists_cons
  have htext : trimLeft (gap ++ w.text) = w.text := by
    rw [Text.trimLeft_append hgap, Written.text, hname, List.cons_append, Text.trimLeft_cons hc]
  have htake : w.text.take (nameLength false w.text) = w.name := by
    rw [Written.text, w.isName.nameLength, List.take_left]
  have hempty : w.name.isEmpty = false := by rw [hname]; rfl
  have hcolon : trimLeft (w.text.drop w.name.length) = ':' :: ' ' :: (w.typeName ++ w.details) := by
    rw [Written.text, List.drop_left, Text.trimLeft_cons (by decide)]
  have hdetails := readDetails_type w.isType w.noComma w.takeWhile_details
  unfold read?
  simp only [htext, htake, hempty, hcolon, hdetails]
  exact ⟨_, rfl⟩

/-- **A parameter line is read back.** -/
theorem read?_written (w : Written) {gap : List Char} (hgap : ∀ c ∈ gap, isBlank c = true)
    (offset : Nat) : ∃ q, read? offset (gap ++ w.text) = some q ∧ Reads w q := by
  obtain ⟨span, hread⟩ := read?_text w hgap offset
  refine ⟨_, hread, rfl, rfl, fun hclear => ?_,
    fun hrequirement d hdescription word left hword hleading => ?_⟩
  · cases hrequirement : w.requirement with
    | some mandatory =>
      rw [Written.afterType_requirement hrequirement]
      exact ⟨by rw [isMandatory_requirementWord]; cases mandatory <;> rfl, rfl⟩
    | none =>
      cases hdescription : w.description with
      | none =>
        rw [Written.afterType_none hrequirement hdescription]
        exact ⟨isMandatory_nil, rfl⟩
      | some d =>
        rw [Written.afterType_description hrequirement hdescription,
          readTail_description (w.isDescription d hdescription)
            (hclear hrequirement d hdescription)]
        exact ⟨isMandatory_nil, rfl⟩
  · rw [Written.afterType_description hrequirement hdescription,
      readTail_leadingWord hword hleading]
    exact ⟨rfl, rfl⟩

theorem Written.isPhrase_part (w : Written) : ∀ part ∈ w.parts, Text.IsPhrase part := by
  refine List.forall_mem_append.mpr ⟨fun part hpart => ?_, fun part hpart => ?_⟩
  · obtain ⟨mandatory, -, rfl⟩ := Option.map_eq_some_iff.mp (Option.mem_toList.mp hpart)
    cases mandatory <;> decide
  · exact w.isDescription part (Option.mem_toList.mp hpart)

/-- The text of a parameter ends with a phrase. -/
theorem Written.exists_text_append (w : Written) :
    ∃ front back, ':' :: ' ' :: (w.typeName ++ w.details) = front ++ back ∧
      Text.IsPhrase back := by
  rcases List.eq_nil_or_concat' w.parts with hparts | ⟨init, last, hparts⟩
  · refine ⟨[':', ' '], w.typeName, ?_, w.isType⟩
    rw [details, hparts, List.flatMap_nil, List.append_nil]
    rfl
  · refine ⟨':' :: ' ' :: (w.typeName ++ (init.flatMap fun part => ',' :: ' ' :: part) ++
      [',', ' ']), last, ?_, w.isPhrase_part last (by rw [hparts]; simp)⟩
    rw [details, hparts]
    simp

/-- The text of a parameter is a phrase: it begins with the name and ends with one of its parts. -/
theorem Written.isPhrase_text (w : Written) : Text.IsPhrase w.text := by
  obtain ⟨c, cs, hname, hc⟩ := w.isName.exists_cons
  obtain ⟨front, back, hrest, hback⟩ := w.exists_text_append
  have htext : w.text = c :: (cs ++ front) ++ back := by
    rw [text, hname, hrest, List.cons_append, List.cons_append, List.append_assoc]
  refine ⟨?_, ?_, ?_⟩
  · rw [htext, Text.trim_append_trimmed hc hback.trimmed hback.nonempty]
  · rw [htext]
    exact List.cons_ne_nil _ _
  · have hdetails : '\n' ∉ w.details := by
      intro hmem
      obtain ⟨part, hpart, hmem⟩ := List.mem_flatMap.mp hmem
      have hline := (w.isPhrase_part part hpart).oneLine
      simp [hline] at hmem
    simp [text, w.isName.oneLine, w.isType.oneLine, hdetails]

theorem Written.ofList_text_ne (w : Written) {s : String} (h : ' ' ∉ s.toList) :
    String.ofList w.text ≠ s := by
  rintro rfl
  refine h ?_
  rw [String.toList_ofList]
  simp [text]

end FlowParam

/-! ## 5. Comment lines are read back -/

namespace FlowDoc

open FlowParam (Reads)

/-- A comment line: blanks, the comment sign, and after more blanks its text. -/
def commentLine (indent gap : Nat) (content : List Char) : List Char :=
  List.replicate indent ' ' ++ '#' :: (List.replicate gap ' ' ++ content)

theorem isBlank_of_mem_replicate {n : Nat} : ∀ c ∈ List.replicate n ' ', isBlank c = true := by
  intro c hc
  rw [List.eq_of_mem_replicate hc]
  decide

theorem trim_commentLine (indent gap : Nat) {content : List Char} (h : Text.IsPhrase content) :
    trim (commentLine indent gap content) = '#' :: (List.replicate gap ' ' ++ content) := by
  rw [commentLine, Text.trim_append isBlank_of_mem_replicate]
  exact Text.trim_append_trimmed (by decide) h.trimmed h.nonempty

theorem isDelimiter_commentLine (indent : Nat) :
    isDelimiter (commentLine indent 0 ['#']) = true := by
  rw [isDelimiter, trim_commentLine indent 0 (by decide)]
  decide

theorem isInner_commentLine (indent gap : Nat) {content : List Char} (h : Text.IsPhrase content) :
    isInner (commentLine indent (gap + 1) content) = true := by
  have htrim := trim_commentLine indent (gap + 1) h
  have hdelimiter : isDelimiter (commentLine indent (gap + 1) content) = false := by
    rw [isDelimiter, htrim]
    rfl
  rw [isInner, hdelimiter, htrim]
  rfl

theorem oneLine_commentLine (indent gap : Nat) {content : List Char} (h : Text.IsPhrase content) :
    '\n' ∉ commentLine indent gap content := by
  simp [commentLine, List.mem_replicate, h.oneLine]

namespace Progress

/-- What is read of a comment line with a text in it. -/
theorem line_comment (p : Progress) (start indent gap : Nat) {content : List Char}
    (h : Text.IsPhrase content) :
    p.line start (commentLine indent gap content) =
      if String.ofList content = "in:" then { p with current := .inputs }
      else if String.ofList content = "out:" then { p with current := .outputs }
      else match p.current, FlowParam.read?
          (start + byteLength (List.replicate indent ' ') + 1)
          (List.replicate gap ' ' ++ content) with
        | .description, _ => { p with description := p.description ++ [String.ofList content] }
        | .inputs, some param => { p with inputs := p.inputs ++ [param] }
        | .outputs, some param => { p with outputs := p.outputs ++ [param] }
        | _, none => p := by
  have hblank : ∀ c ∈ List.replicate indent ' ', decide (c ≠ '#') = true := by
    intro c hc
    rw [List.eq_of_mem_replicate hc]
    decide
  have hfront : (commentLine indent gap content).takeWhile (· ≠ '#') =
      List.replicate indent ' ' := by
    rw [commentLine, List.takeWhile_append_of_pos hblank]
    simp
  have hbody : (commentLine indent gap content).drop ((List.replicate indent ' ').length + 1) =
      List.replicate gap ' ' ++ content := by
    rw [commentLine, List.drop_length_add_append]
    rfl
  have hcontent : trim (List.replicate gap ' ' ++ content) = content :=
    h.trim_append isBlank_of_mem_replicate
  have hempty : (String.ofList content).isEmpty = false := by simp [h.nonempty]
  unfold line
  simp only [hfront, hbody, hcontent, hempty]
  rfl

/-- Read some lines, the first of which begins at an offset. -/
def lines (p : Progress) (offset : Nat) (ls : List (List Char)) : Progress :=
  (Lines.startsFrom offset ls).foldl (fun p entry => p.line entry.1 entry.2) p

theorem lines_cons (p : Progress) (offset : Nat) (line : List Char) (ls : List (List Char)) :
    p.lines offset (line :: ls) = (p.line offset line).lines (offset + byteLength line + 1) ls :=
  rfl

theorem lines_append (p : Progress) (offset : Nat) (xs ys : List (List Char)) :
    p.lines offset (xs ++ ys) = (p.lines offset xs).lines (offset + Lines.bytesThrough xs) ys := by
  rw [lines, Lines.startsFrom_append, List.foldl_append]
  rfl

theorem line_in (p : Progress) (start indent : Nat) :
    p.line start (commentLine indent 1 "in:".toList) = { p with current := .inputs } := by
  rw [line_comment p start indent 1 (by decide)]
  rfl

theorem line_out (p : Progress) (start indent : Nat) :
    p.line start (commentLine indent 1 "out:".toList) = { p with current := .outputs } := by
  rw [line_comment p start indent 1 (by decide)]
  rfl

/-- The lines of a description are added to it. -/
theorem lines_description {p : Progress} (hcurrent : p.current = .description) (indent : Nat)
    {phrases : List (List Char)} (h : ∀ cs ∈ phrases, Text.IsPhrase cs ∧
      String.ofList cs ≠ "in:" ∧ String.ofList cs ≠ "out:") (offset : Nat) :
    p.lines offset (phrases.map (commentLine indent 1)) =
      { p with description := p.description ++ phrases.map String.ofList } := by
  induction phrases generalizing p offset with
  | nil =>
    rw [List.map_nil, List.map_nil, List.append_nil]
    rfl
  | cons cs phrases ih =>
    obtain ⟨⟨hphrase, hin, hout⟩, hrest⟩ := List.forall_mem_cons.mp h
    have hline : p.line offset (commentLine indent 1 cs) =
        { p with description := p.description ++ [String.ofList cs] } := by
      rw [line_comment p offset indent 1 hphrase, if_neg hin, if_neg hout, hcurrent]
    rw [List.map_cons, lines_cons, hline, ih (by exact hcurrent) hrest]
    simp

/-- Add parameters to the current section. -/
def put (p : Progress) (params : List FlowParam) : Progress :=
  match p.current with
  | .description => p
  | .inputs => { p with inputs := p.inputs ++ params }
  | .outputs => { p with outputs := p.outputs ++ params }

theorem put_nil (p : Progress) : p.put [] = p := by
  unfold put
  split <;> simp

theorem put_put (p : Progress) (xs ys : List FlowParam) : (p.put xs).put ys = p.put (xs ++ ys) := by
  obtain ⟨current, description, inputs, outputs⟩ := p
  cases current <;> simp [put]

theorem current_put (p : Progress) (params : List FlowParam) :
    (p.put params).current = p.current := by
  obtain ⟨current, description, inputs, outputs⟩ := p
  cases current <;> rfl

/-- The lines of parameters are added to the current section. -/
theorem lines_params {p : Progress} (hcurrent : p.current ≠ .description) (indent : Nat)
    (params : List FlowParam.Written) (offset : Nat) :
    ∃ read, List.Forall₂ Reads params read ∧
      p.lines offset (params.map fun w => commentLine indent 3 w.text) = p.put read := by
  induction params generalizing p offset with
  | nil => exact ⟨[], .nil, (put_nil p).symm⟩
  | cons w params ih =>
    obtain ⟨q, hq, hreads⟩ := FlowParam.read?_written w (isBlank_of_mem_replicate (n := 3))
      (offset + byteLength (List.replicate indent ' ') + 1)
    have hline : p.line offset (commentLine indent 3 w.text) = p.put [q] := by
      rw [line_comment p offset indent 3 w.isPhrase_text, if_neg (w.ofList_text_ne (by decide)),
        if_neg (w.ofList_text_ne (by decide)), hq]
      unfold put
      cases hsection : p.current with
      | description => exact absurd hsection hcurrent
      | inputs => rfl
      | outputs => rfl
    obtain ⟨read, hread, hlines⟩ := ih (p := p.put [q]) (by rwa [current_put])
      (offset + byteLength (commentLine indent 3 w.text) + 1)
    refine ⟨q :: read, .cons hreads hread, ?_⟩
    rw [List.map_cons, lines_cons, hline, hlines, put_put]
    rfl

end Progress

/-! ## 6. Blocks are read back -/

/-- Documentation of a flow as it is written down. -/
structure Written where
  description : List (List Char)
  inputs : List FlowParam.Written
  outputs : List FlowParam.Written
  isDescription : ∀ cs ∈ description, Text.IsPhrase cs ∧
    String.ofList cs ≠ "in:" ∧ String.ofList cs ≠ "out:"

namespace Written

/-- The lines between the delimiters: the description and the two sections. -/
def inner (w : Written) (indent : Nat) : List (List Char) :=
  w.description.map (commentLine indent 1) ++
    commentLine indent 1 "in:".toList ::
      (w.inputs.map (fun p => commentLine indent 3 p.text) ++
        commentLine indent 1 "out:".toList ::
          w.outputs.map (fun p => commentLine indent 3 p.text))

/-- The lines of the block. -/
def lines (w : Written) (indent : Nat) : List (List Char) :=
  commentLine indent 0 ['#'] :: (w.inner indent ++ [commentLine indent 0 ['#']])

/-- The text of the block, each line with its line feed. -/
def text (w : Written) (indent : Nat) : List Char := (w.lines indent).flatMap (· ++ ['\n'])

/-- Every line between the delimiters is a comment with a phrase in it. -/
theorem exists_commentLine (w : Written) (indent : Nat) : ∀ line ∈ w.inner indent,
    ∃ gap content, Text.IsPhrase content ∧ line = commentLine indent (gap + 1) content := by
  have hparams : ∀ (params : List FlowParam.Written),
      ∀ line ∈ params.map fun p => commentLine indent 3 p.text,
        ∃ gap content, Text.IsPhrase content ∧ line = commentLine indent (gap + 1) content := by
    intro params line hline
    obtain ⟨p, -, rfl⟩ := List.mem_map.mp hline
    exact ⟨2, p.text, p.isPhrase_text, rfl⟩
  refine List.forall_mem_append.mpr ⟨fun line hline => ?_, List.forall_mem_cons.mpr ⟨?_,
    List.forall_mem_append.mpr ⟨hparams w.inputs, List.forall_mem_cons.mpr ⟨?_,
      hparams w.outputs⟩⟩⟩⟩
  · obtain ⟨cs, hcs, rfl⟩ := List.mem_map.mp hline
    exact ⟨0, cs, (w.isDescription cs hcs).1, rfl⟩
  · exact ⟨0, _, by decide, rfl⟩
  · exact ⟨0, _, by decide, rfl⟩

theorem oneLine_lines (w : Written) (indent : Nat) : ∀ line ∈ w.lines indent, '\n' ∉ line := by
  have hdelimiter : '\n' ∉ commentLine indent 0 ['#'] :=
    oneLine_commentLine indent 0 (by decide)
  refine List.forall_mem_cons.mpr ⟨hdelimiter, List.forall_mem_append.mpr
    ⟨fun line hline => ?_, List.forall_mem_singleton.mpr hdelimiter⟩⟩
  obtain ⟨gap, content, hcontent, rfl⟩ := w.exists_commentLine indent line hline
  exact oneLine_commentLine indent (gap + 1) hcontent

/-- The lines between the delimiters are read section by section. -/
theorem lines_inner (w : Written) (indent offset : Nat) :
    ∃ inputs outputs, List.Forall₂ Reads w.inputs inputs ∧ List.Forall₂ Reads w.outputs outputs ∧
      Progress.lines {} offset (w.inner indent) =
        ⟨.outputs, w.description.map String.ofList, inputs, outputs⟩ := by
  have hdescription : Progress.lines {} offset (w.description.map (commentLine indent 1)) =
      { description := w.description.map String.ofList } :=
    Progress.lines_description rfl indent w.isDescription offset
  rw [inner, Progress.lines_append, hdescription, Progress.lines_cons, Progress.line_in,
    Progress.lines_append]
  obtain ⟨inputs, hinputs, hread⟩ := Progress.lines_params
    (p := { current := .inputs, description := w.description.map String.ofList }) nofun indent
    w.inputs _
  rw [hread, Progress.lines_cons, Progress.line_out]
  obtain ⟨outputs, houtputs, hread⟩ := Progress.lines_params
    (p := ⟨.outputs, w.description.map String.ofList, [] ++ inputs, []⟩) nofun indent w.outputs _
  refine ⟨inputs, outputs, hinputs, houtputs, ?_⟩
  exact hread

/-- The lines of the block with the offsets where they begin. -/
theorem exists_startsFrom_lines (w : Written) (indent offset : Nat) :
    ∃ stop, Lines.startsFrom offset (w.lines indent) =
      (offset, commentLine indent 0 ['#']) ::
        (Lines.startsFrom (offset + byteLength (commentLine indent 0 ['#']) + 1) (w.inner indent) ++
          [(stop, commentLine indent 0 ['#'])]) := by
  rw [lines, Lines.startsFrom, Lines.startsFrom_append]
  exact ⟨_, rfl⟩

end Written

/-- A text that ends with a line feed, if it has an end, has an empty last line. -/
theorem exists_split_of_ends {front : List Char}
    (h : ∀ c, front.getLast? = some c → c = '\n') :
    ∃ earlier, Lines.split front = earlier ++ [[]] := by
  rcases List.eq_nil_or_concat' front with rfl | ⟨before, c, rfl⟩
  · exact ⟨[], rfl⟩
  · obtain rfl := h c (List.getLast?_concat ..)
    obtain ⟨lines, last, hbefore⟩ := Lines.exists_split_eq before
    have hfeed : Lines.split ['\n'] = [[], []] := rfl
    refine ⟨lines ++ [last], ?_⟩
    rw [Lines.split_append hbefore hfeed, List.append_nil, List.append_assoc]
    rfl

/-- **A block is read back**: with its description, and with its parameters in their order, each as
    it was written except for a leading word of its description. The block may stand above any line
    of a text. -/
theorem above?_written (w : Written) (indent : Nat) {front : List Char}
    (hfront : ∀ c, front.getLast? = some c → c = '\n') (rest : List Char) :
    let text := front ++ w.text indent ++ rest
    let keyLine := ((Lines.ofText text).position (byteLength (front ++ w.text indent))).1
    ∃ doc, above? (Lines.ofText text) keyLine = some doc ∧
      doc.description = "\n".intercalate (w.description.map String.ofList) ∧
      List.Forall₂ Reads w.inputs doc.inputs ∧ List.Forall₂ Reads w.outputs doc.outputs := by
  obtain ⟨earlier, hearlier⟩ := exists_split_of_ends hfront
  have hblock : Lines.split (front ++ w.text indent) = earlier ++ w.lines indent ++ [[]] := by
    have htext : Lines.split (w.text indent) = w.lines indent ++ [[]] := by
      have hsplit := Lines.split_flatMap_feed (w.oneLine_lines indent) []
      rwa [List.append_nil] at hsplit
    rw [Lines.split_append hearlier htext, List.append_assoc]
    rfl
  intro text keyLine
  have hkeyLine : keyLine = (earlier ++ w.lines indent).length + 1 :=
    congrArg Prod.fst (Lines.position_append hblock rest)
  have hlines : (Lines.ofText text).lines = earlier ++ w.lines indent ++ Lines.split rest := by
    obtain ⟨first, after, hrest⟩ := List.exists_cons_of_ne_nil (Lines.split_ne_nil rest)
    show Lines.split (front ++ w.text indent ++ rest) = _
    rw [Lines.split_append hblock hrest, hrest]
    rfl
  have hcount : keyLine ≤ (Lines.ofText text).count + 1 := by
    have hlength : (Lines.ofText text).count =
        (earlier ++ w.lines indent).length + (Lines.split rest).length := by
      rw [Lines.count, hlines, List.length_append]
    omega
  have htake : (Lines.ofText text).withStarts.take (keyLine - 1) =
      Lines.startsFrom 0 (earlier ++ w.lines indent) := by
    rw [hkeyLine, Nat.add_sub_cancel, Lines.take_withStarts hlines]
  obtain ⟨stop, hstarts⟩ := w.exists_startsFrom_lines indent (0 + Lines.bytesThrough earlier)
  rw [Lines.startsFrom_append, hstarts] at htake
  obtain ⟨inputs, outputs, hinputs, houtputs, hread⟩ := w.lines_inner indent
    (0 + Lines.bytesThrough earlier + byteLength (commentLine indent 0 ['#']) + 1)
  refine ⟨_, above?_eq_some_iff.mpr ⟨hcount, _, _, _, _, htake, isDelimiter_commentLine indent,
    isDelimiter_commentLine indent, fun entry hentry => ?_, rfl⟩, ?_⟩
  · have hmem : entry.2 ∈ w.inner indent := by
      have hmem := List.mem_map_of_mem (f := Prod.snd) hentry
      rwa [Lines.map_snd_startsFrom] at hmem
    obtain ⟨gap, content, hcontent, hline⟩ := w.exists_commentLine indent entry.2 hmem
    rw [hline]
    exact isInner_commentLine indent gap hcontent
  · have hfold : (Lines.startsFrom (0 + Lines.bytesThrough earlier +
        byteLength (commentLine indent 0 ['#']) + 1) (w.inner indent)).foldl
          (fun p entry => p.line entry.1 entry.2) ({} : Progress) = _ := hread
    unfold ofLines
    simp only [hfold]
    exact ⟨trivial, hinputs, houtputs⟩

/-- A dotted name with a requirement and a description, and a name with a type alone. -/
theorem above?_written_dotted :
    let dotted : FlowParam.Written :=
      ⟨['a'] ++ '.' :: ['b'], ['i', 'n', 't'], some true, some ['n', 'o', ',', ' ', '1'],
        .dotted rfl (List.forall_mem_nil _) (.segment rfl (List.forall_mem_nil _)), by decide,
        by decide, by decide⟩
    let plain : FlowParam.Written :=
      ⟨['c'], ['m', 'a', 'p'], none, none, .segment rfl (List.forall_mem_nil _), by decide,
        by decide, by decide⟩
    let w : Written := ⟨[['D', 'o'], ['s', 'o']], [dotted], [plain], by decide⟩
    let front := ['x', '\n']
    let text := front ++ w.text 2 ++ ['k', ':']
    let keyLine := ((Lines.ofText text).position (byteLength (front ++ w.text 2))).1
    (∀ c, front.getLast? = some c → c = '\n') ∧
      ∃ doc, above? (Lines.ofText text) keyLine = some doc ∧
        doc.description = "\n".intercalate (w.description.map String.ofList) ∧
        List.Forall₂ Reads w.inputs doc.inputs ∧ List.Forall₂ Reads w.outputs doc.outputs := by
  intro dotted plain w front text keyLine
  have hfront : ∀ c, front.getLast? = some c → c = '\n' := fun c hc => (Option.some.inj hc).symm
  exact ⟨hfront, above?_written w 2 hfront ['k', ':']⟩

/-- The description `total` of a parameter without a requirement is lost. -/
theorem above?_written_total :
    let count : FlowParam.Written :=
      ⟨"count".toList, "int".toList, none, some "total".toList,
        .segment rfl (List.all_eq_true.mp rfl), by decide, by decide, by decide⟩
    let w : Written := ⟨["Counts".toList], [count], [], by decide⟩
    let text := "flows:\n".toList ++ w.text 2 ++ "  main:\n    - log: a\n".toList
    ¬∃ doc, above? (Lines.ofText text) 8 = some doc ∧
      doc.inputs.map FlowParam.description =
        w.inputs.map fun p => String.ofList (p.description.getD []) := by
  intro count w text
  have hdoc : above? (Lines.ofText text) 8 =
      some ⟨"Counts", [⟨"count", ⟨37, 42⟩, "int", false, ""⟩], [], ⟨7, 68⟩⟩ := by decide +kernel
  rintro ⟨doc, hfound, hdescription⟩
  rw [hdoc] at hfound
  obtain rfl := Option.some.inj hfound
  exact absurd hdescription (by decide)

end FlowDoc

end FlowExpr
