import ModuleHost.CommandLine.Arguments

/-!
# Directories on a command line

Directories of the search path are said with a switch that has a long name and a letter, in the
argument of the switch or in the next one (`Says`).  Whoever takes up the arguments of a level one
by one finds the directories in order (`TakesUp.reader_eq`), in front of the name of the command as
behind it; what is said behind it takes the place of what is said in front of it
(`ofArguments_said`).
-/

namespace ModuleHost.CommandLine

def includeArgument (dir : String) : String := "--include=" ++ dir

inductive Attaches (dir : String) : String → Prop
  | long : Attaches dir (includeArgument dir)
  | equals : Attaches dir ("-I=" ++ dir)
  | letter (hne : dir ≠ "") (heq : dir.toList.head? ≠ some '=') : Attaches dir ("-I" ++ dir)

/-- The arguments say the directories in order, each with a switch of its own.  A directory that is
an argument of its own must not look like a switch. -/
inductive Says : (arguments dirs : List String) → Prop
  | nil : Says [] []
  | attached {argument dir : String} {arguments dirs : List String} (ha : Attaches dir argument)
      (hs : Says arguments dirs) : Says (argument :: arguments) (dir :: dirs)
  | apart {switch dir : String} {arguments dirs : List String}
      (hswitch : switch = "-I" ∨ switch = "--include")
      (hdir : dir = "-" ∨ dir.toList.head? ≠ some '-') (hs : Says arguments dirs) :
      Says (switch :: dir :: arguments) (dir :: dirs)

theorem says_includeArguments (dirs : List String) : Says (dirs.map includeArgument) dirs := by
  induction dirs with
  | nil => exact .nil
  | cons dir dirs ih => exact .attached .long ih

section

variable {p : Progress} {s : Settings} {argument dir : String}

theorem find?_longName (level : Option Verb) :
    (Switch.ofLevel level).find? (·.longName = "include") = some .searchDir := by
  rcases level with _ | verb
  · decide
  · cases verb <;> decide

theorem find?_letter (level : Option Verb) :
    (Switch.ofLevel level).find? (·.letter? = some 'I') = some .searchDir := by
  rcases level with _ | verb
  · decide
  · cases verb <;> decide

theorem attach_searchDir (hp : p.settle = .ok s) (dir : String) :
    p.attach .searchDir dir
      = .ok { settings := { s with searchDirs := s.searchDirs ++ [dir] } } := by
  rw [Progress.attach, hp]
  rfl

theorem switchOn_searchDir (hp : p.settle = .ok s) :
    p.switchOn .searchDir = .ok { settings := s, pending := some (.searchDir, none) } := by
  rw [Progress.switchOn, hp]
  rfl

theorem readLong_attached (level : Option Verb) (p : Progress) (dir : String) :
    p.readLong level ("include".toList ++ '=' :: dir.toList) = p.attach .searchDir dir := by
  have hname : ∀ c ∈ "include".toList, decide (c ≠ '=') = true := List.all_eq_true.1 (by decide)
  have htake : ("include".toList ++ '=' :: dir.toList).takeWhile (· ≠ '=') = "include".toList := by
    rw [List.takeWhile_append_of_pos hname, List.takeWhile_cons_of_neg (by decide), List.append_nil]
  have hdrop : ("include".toList ++ '=' :: dir.toList).dropWhile (· ≠ '=') = '=' :: dir.toList := by
    rw [List.dropWhile_append_of_pos hname, List.dropWhile_cons_of_neg (by decide)]
  unfold Progress.readLong
  rw [htake, hdrop, String.ofList_toList]
  dsimp only
  rw [find?_longName]
  dsimp only
  rw [String.ofList_toList]
  rfl

theorem readLong_apart (level : Option Verb) (p : Progress) :
    p.readLong level "include".toList = p.switchOn .searchDir := by
  have htake : "include".toList.takeWhile (· ≠ '=') = "include".toList := by decide
  have hdrop : "include".toList.dropWhile (· ≠ '=') = [] := by decide
  unfold Progress.readLong
  rw [htake, hdrop, String.ofList_toList]
  dsimp only
  rw [find?_longName]

/-- Behind the letter an equals sign is no part of the directory. -/
theorem readLetters_equals (level : Option Verb) (p : Progress) (dir : String) :
    p.readLetters level ('I' :: '=' :: dir.toList) = p.attach .searchDir dir := by
  rw [Progress.readLetters, find?_letter]
  show p.attach .searchDir (String.ofList dir.toList) = _
  rw [String.ofList_toList]

theorem readLetters_attached (level : Option Verb) (p : Progress) (hne : dir ≠ "")
    (heq : dir.toList.head? ≠ some '=') :
    p.readLetters level ('I' :: dir.toList) = p.attach .searchDir dir := by
  rw [Progress.readLetters, find?_letter]
  dsimp only
  rw [if_pos (by decide)]
  split
  · next hnil => exact absurd (String.toList_eq_nil_iff.1 hnil) hne
  · next hcons =>
    rw [hcons] at heq
    exact absurd rfl heq
  · rw [String.ofList_toList]

theorem readLetters_apart (level : Option Verb) (p : Progress) :
    p.readLetters level ['I'] = p.switchOn .searchDir := by
  rw [Progress.readLetters, find?_letter]
  rfl

/-- The directory of a switch is put behind those that were said before. -/
theorem read_attached (level : Option Verb) (ha : Attaches dir argument) (hp : p.settle = .ok s) :
    p.read level argument
      = .ok { settings := { s with searchDirs := s.searchDirs ++ [dir] } } := by
  rw [← attach_searchDir hp dir]
  cases ha with
  | long =>
    rw [Progress.read, includeArgument, String.toList_append]
    exact readLong_attached level p dir
  | equals =>
    rw [Progress.read, String.toList_append]
    exact readLetters_equals level p dir
  | letter hne heq =>
    rw [Progress.read, String.toList_append]
    exact readLetters_attached level p hne heq

/-- A switch without its directory waits for it. -/
theorem read_switch (level : Option Verb) {switch : String}
    (hswitch : switch = "-I" ∨ switch = "--include") (hp : p.settle = .ok s) :
    p.read level switch = .ok { settings := s, pending := some (.searchDir, none) } := by
  rw [← switchOn_searchDir hp]
  rcases hswitch with rfl | rfl
  · exact readLetters_apart level p
  · exact readLong_apart level p

/-- What does not look like a switch is a value, if one is waited for, or else an operand. -/
theorem read_of_plain (level : Option Verb) (p : Progress)
    (h : argument = "-" ∨ argument.toList.head? ≠ some '-') :
    p.read level argument = match p.pending with
      | some (switch, none) => .ok { p with pending := some (switch, some argument) }
      | _ => p.readOperand level argument := by
  have hplain : ∀ c cs, argument.toList ≠ '-' :: c :: cs := by
    intro c cs htext
    rcases h with rfl | hhead
    · cases htext
    · rw [htext] at hhead
      exact hhead rfl
  unfold Progress.read
  split
  · next htext => exact absurd htext (hplain _ _)
  · next htext => exact absurd htext (hplain _ _)
  · rfl

theorem Attaches.head? (ha : Attaches dir argument) : argument.toList.head? = some '-' := by
  cases ha with
  | long => rw [includeArgument, String.toList_append]; rfl
  | equals | letter => rw [String.toList_append]; rfl

theorem Attaches.ne_operandMark (ha : Attaches dir argument) : argument ≠ operandMark := by
  intro hmark
  have hlist := congrArg String.toList hmark
  cases ha with
  | long => rw [includeArgument, String.toList_append] at hlist; cases hlist
  | equals => rw [String.toList_append] at hlist; cases hlist
  | letter hne => rw [String.toList_append] at hlist; cases hlist

theorem not_awaitsValue (hp : p.settle = .ok s) : p.awaitsValue = false := by
  unfold Progress.settle at hp
  unfold Progress.awaitsValue
  split
  · next hpending =>
    rw [hpending] at hp
    cases hp
  · rfl

/-- Arguments of the level are taken up one by one, as long as they are values or look like
switches. -/
def TakesUp {α : Type} (level : Option Verb)
    (reader : Progress → List String → Except Ending α) : Prop :=
  ∀ p argument rest, argument ≠ operandMark →
    p.awaitsValue = true ∨ argument.toList.head? = some '-' →
    reader p (argument :: rest) = do reader (← p.read level argument) rest

theorem takesUp_readFrom : TakesUp none Request.readFrom := by
  intro p argument rest _ hswitch
  rw [Request.readFrom]
  split
  · rfl
  · next hawaits =>
    have hhead := hswitch.resolve_left hawaits
    have hword : ∀ {word : String}, word.toList.head? ≠ some '-' → word ≠ argument := by
      rintro word hword rfl
      exact hword hhead
    have hverb : Verb.ofName? argument = none := by
      rw [Verb.ofName?, List.find?_eq_none]
      intro verb _
      have hne : verb.name ≠ argument := hword (by cases verb <;> decide)
      simpa using hne
    rw [hverb]
    exact if_neg (hword (by decide)).symm

theorem takesUp_readBehind (verb : Verb) : TakesUp (some verb) (readBehind verb) := by
  intro p argument rest hmark _
  rw [readBehind, if_neg hmark]

/-- Whoever takes up arguments one by one finds the directories that they say. -/
theorem TakesUp.reader_eq {α : Type} {level : Option Verb}
    {reader : Progress → List String → Except Ending α} (h : TakesUp level reader)
    {arguments dirs : List String} (hs : Says arguments dirs) (hp : p.settle = .ok s) :
    ∃ p', p'.settle = .ok { s with searchDirs := s.searchDirs ++ dirs }
      ∧ ∀ rest, reader p (arguments ++ rest) = reader p' rest := by
  induction hs generalizing p s with
  | nil =>
    refine ⟨p, ?_, fun rest => rfl⟩
    rw [List.append_nil]
    exact hp
  | @attached argument dir arguments dirs ha _ ih =>
    have hread := read_attached level ha hp
    obtain ⟨p', hsettle, hrest⟩ := ih (s := { s with searchDirs := s.searchDirs ++ [dir] })
      (p := { settings := { s with searchDirs := s.searchDirs ++ [dir] } }) rfl
    refine ⟨p', ?_, fun rest => ?_⟩
    · rw [hsettle, List.append_assoc]
      rfl
    · rw [List.cons_append, h _ _ _ ha.ne_operandMark (Or.inr ha.head?), hread]
      exact hrest rest
  | @apart switch dir arguments dirs hswitch hdir _ ih =>
    have hread := read_switch level hswitch hp
    have hvalue := read_of_plain level { settings := s, pending := some (.searchDir, none) } hdir
    obtain ⟨p', hsettle, hrest⟩ := ih (s := { s with searchDirs := s.searchDirs ++ [dir] })
      (p := { settings := s, pending := some (.searchDir, some dir) }) rfl
    have hmark : dir ≠ operandMark := by
      rintro rfl
      exact absurd hdir (by decide)
    have hfirst : switch ≠ operandMark ∧ switch.toList.head? = some '-' := by
      rcases hswitch with rfl | rfl <;> decide
    refine ⟨p', ?_, fun rest => ?_⟩
    · rw [hsettle, List.append_assoc]
      rfl
    · rw [List.cons_append, h _ _ _ hfirst.1 (Or.inr hfirst.2), hread]
      show reader _ (dir :: (arguments ++ rest)) = _
      rw [h _ _ _ hmark (Or.inl rfl), hvalue]
      exact hrest rest

/-- The name of a module is taken up as the operand. -/
theorem read_operand {verb : Verb} (hverb : verb.takesPath = false) {name : String}
    (hname : name.toList.head? ≠ some '-') (hp : p.settle = .ok s) (hs : s.operand = none) :
    p.read (some verb) name = .ok { settings := { s with operand := some name } } := by
  have hset : s.setOperand verb name = .ok { s with operand := some name } := by
    rw [Settings.setOperand, hs, hverb]
    rfl
  have hoperand : p.readOperand (some verb) name
      = .ok { settings := { s with operand := some name } } := by
    rw [Progress.readOperand, hp]
    exact congrArg
      (fun r : Except Ending Settings => do return ({ settings := ← r } : Progress)) hset
  rw [read_of_plain _ p (Or.inr hname)]
  split
  · next hpending =>
    have hawaits := not_awaitsValue hp
    rw [Progress.awaitsValue, hpending] at hawaits
    cases hawaits
  · exact hoperand

end

/-- Directories can be said on either side of the name of the command; what is said behind it takes
the place of what is said in front of it. -/
theorem ofArguments_said {front between after dirs dirs₁ dirs₂ : List String} {verb : Verb}
    (hverb : verb.takesPath = false) {name : String} (hname : name.toList.head? ≠ some '-')
    (hfront : Says front dirs) (hbetween : Says between dirs₁) (hafter : Says after dirs₂) :
    ∃ r, Request.ofArguments (front ++ verb.name :: (between ++ name :: after)) = .ok r
      ∧ r.searchDirs = if (dirs₁ ++ dirs₂).isEmpty then dirs else dirs₁ ++ dirs₂ := by
  obtain ⟨p, hp, hreadFront⟩ := takesUp_readFrom.reader_eq hfront (p := {}) (s := {}) rfl
  obtain ⟨p₁, hp₁, hread₁⟩ := (takesUp_readBehind verb).reader_eq hbetween (p := {}) (s := {}) rfl
  have hoperand := read_operand hverb hname hp₁ rfl
  obtain ⟨p₂, hp₂, hread₂⟩ := (takesUp_readBehind verb).reader_eq hafter
    (p := { settings := { searchDirs := dirs₁, operand := some name } }) rfl
  have hmark : name ≠ operandMark := by
    rintro rfl
    exact hname (by decide)
  have hlevel : readBehind verb {} (between ++ name :: after)
      = .ok { searchDirs := dirs₁ ++ dirs₂, operand := some name } := by
    have hend := hread₂ []
    rw [List.append_nil, readBehind, hp₂] at hend
    rw [hread₁, readBehind, if_neg hmark, hoperand]
    exact hend
  have hverbs : Verb.ofName? verb.name = some verb := by cases verb <;> decide
  have hrequest : Request.ofArguments (front ++ verb.name :: (between ++ name :: after))
      = Request.ofLevels verb { searchDirs := dirs }
        { searchDirs := dirs₁ ++ dirs₂, operand := some name } := by
    rw [Request.ofArguments, hreadFront, Request.readFrom, if_neg (by simp [not_awaitsValue hp]),
      hverbs]
    dsimp only
    rw [hlevel, hp]
    rfl
  rw [hrequest]
  cases verb with
  | compile | disassemble => cases hverb
  | load | resolve | run => exact ⟨_, rfl, rfl⟩

end ModuleHost.CommandLine
