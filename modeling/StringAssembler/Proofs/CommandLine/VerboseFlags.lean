import StringAssembler.CommandLine.Arguments

/-!
# Flags for more output

An argument may ask for more output, by a long flag of its own or by letters among others.
`Argument.flags` counts how often it does, and `Argument.quiet?` is what is left of it
otherwise.  Each argument can be looked at by itself: one that starts with a dash and goes
on is never the value of the option before it.

Reading arguments counts these flags and does nothing else with them.  So arguments that
make a conversion make the same one without the flags, and the verbosity is the number of
flags (`Request.ofArguments_withoutFlags`).
-/

namespace StringAssembler

/-! ## Flags in arguments -/

namespace Argument

/-- The letters of the other options without a value. -/
def switchLetters : List Char :=
  ['a', 'V', 'h']

/-- The letters of an argument without the flags for more output.  The first letter of an
option with a value ends the letters. -/
def quietLetters : List Char → List Char
  | [] => []
  | letter :: rest =>
      if letter = 'v' then quietLetters rest
      else if letter ∈ switchLetters then letter :: quietLetters rest
      else letter :: rest

/-- How often the letters of an argument ask for more output. -/
def flagsOfLetters : List Char → Nat
  | [] => 0
  | letter :: rest =>
      if letter = 'v' then flagsOfLetters rest + 1
      else if letter ∈ switchLetters then flagsOfLetters rest
      else 0

/-- What is left of an argument without its flags for more output, if anything is. -/
def quiet? (argument : String) : Option String :=
  match argument.toList with
  | '-' :: '-' :: body => if String.ofList body = "verbose" then none else some argument
  | '-' :: letter :: rest =>
      match quietLetters (letter :: rest) with
      | [] => none
      | letters => some (String.ofList ('-' :: letters))
  | _ => some argument

/-- How often an argument asks for more output. -/
def flags (argument : String) : Nat :=
  match argument.toList with
  | '-' :: '-' :: body => if String.ofList body = "verbose" then 1 else 0
  | '-' :: letter :: rest => flagsOfLetters (letter :: rest)
  | _ => 0

/-- What becomes of a letter that the program knows: the flag goes, another switch stays, and
the letter of an option with a value stays with what follows. -/
theorem letters_of_name {letter : Char} {name : OptionName}
    (h : OptionName.ofLetter? letter = some name) (rest : List Char) :
    match name with
    | .switch .verbose =>
        quietLetters (letter :: rest) = quietLetters rest ∧
          flagsOfLetters (letter :: rest) = flagsOfLetters rest + 1
    | .switch _ =>
        quietLetters (letter :: rest) = letter :: quietLetters rest ∧
          flagsOfLetters (letter :: rest) = flagsOfLetters rest
    | .valued _ =>
        quietLetters (letter :: rest) = letter :: rest ∧ flagsOfLetters (letter :: rest) = 0 := by
  unfold OptionName.ofLetter? at h
  split at h <;> cases h <;> exact ⟨rfl, rfl⟩

/-- The letter of another switch stays and asks for nothing. -/
theorem letters_of_switch {letter : Char} {switch : Switch}
    (hname : OptionName.ofLetter? letter = some (.switch switch)) (hother : switch ≠ .verbose)
    (rest : List Char) :
    quietLetters (letter :: rest) = letter :: quietLetters rest ∧
      flagsOfLetters (letter :: rest) = flagsOfLetters rest := by
  have hletters := letters_of_name hname rest
  cases switch with
  | verbose => exact absurd rfl hother
  | append | noEscapes | version | help => exact hletters

/-- The forms of an argument by its dashes. -/
inductive Form : List Char → Prop
  | long (body : List Char) : Form ('-' :: '-' :: body)
  | letters {letter : Char} (rest : List Char) (h : letter ≠ '-') : Form ('-' :: letter :: rest)
  | value {chars : List Char} (h : ∀ letter rest, chars ≠ '-' :: letter :: rest) : Form chars

theorem form (chars : List Char) : Form chars := by
  by_cases hdash : ∃ letter rest, chars = '-' :: letter :: rest
  · obtain ⟨letter, rest, rfl⟩ := hdash
    by_cases hletter : letter = '-'
    · rw [hletter]
      exact .long rest
    · exact .letters rest hletter
  · exact .value fun letter rest heq => hdash ⟨letter, rest, heq⟩

/-- An argument that can be a value asks for nothing. -/
theorem quiet?_of_value {argument : String}
    (h : ∀ letter rest, argument.toList ≠ '-' :: letter :: rest) :
    quiet? argument = some argument ∧ flags argument = 0 := by
  unfold quiet? flags
  split
  case h_1 body hchars => exact absurd hchars (h _ _)
  case h_2 letter rest _ hchars => exact absurd hchars (h _ _)
  case h_3 => exact ⟨rfl, rfl⟩

/-- An argument of letters keeps its other letters, if it has any. -/
theorem quiet?_of_letters {argument : String} {letter : Char} {rest : List Char}
    (h : argument.toList = '-' :: letter :: rest) (hletter : letter ≠ '-') :
    quiet? argument =
        (match quietLetters (letter :: rest) with
        | [] => none
        | letters => some (String.ofList ('-' :: letters))) ∧
      flags argument = flagsOfLetters (letter :: rest) := by
  unfold quiet? flags
  rw [h]
  split
  case h_1 body hchars => simp_all
  case h_2 letter rest _ hchars =>
    cases hchars
    exact ⟨rfl, rfl⟩
  case h_3 hchars => exact absurd rfl (hchars _ _)

/-- Arguments without their flags for more output. -/
def withoutFlags (arguments : List String) : List String :=
  arguments.filterMap quiet?

theorem withoutFlags_cons (argument : String) (rest : List String) :
    withoutFlags (argument :: rest) = (quiet? argument).toList ++ withoutFlags rest := by
  unfold withoutFlags
  cases hquiet : quiet? argument <;> simp [hquiet]

/-- How often arguments ask for more output. -/
def countFlags : List String → Nat
  | [] => 0
  | argument :: rest => flags argument + countFlags rest

end Argument

/-! ## Readings without flags -/

/-- The options given so far, but for the flags. -/
def GivenOptions.quiet (given : GivenOptions) : GivenOptions :=
  { given with verbosity := 0 }

namespace Reading

variable {given : GivenOptions} {reading : Reading}

/-- A reading, but for the flags. -/
def quiet : Reading → Reading
  | ready given => ready given.quiet
  | awaiting given option => awaiting given.quiet option
  | ended given => ended given.quiet
  | settled request => settled request

/-- The number of flags read so far. -/
def verbosity : Reading → Nat
  | ready given | awaiting given _ | ended given => given.verbosity
  | settled _ => 0

/-- No argument has settled the request yet. -/
def Unsettled (reading : Reading) : Prop :=
  ∀ request, reading ≠ settled request

/-- A reading has counted some flags, and another one is the same without them. -/
structure Counts (flags : Nat) (reading quietReading : Reading) : Prop where
  quiet : quietReading = reading.quiet
  verbosity : reading.verbosity = flags

theorem Unsettled.quiet (h : reading.Unsettled) : reading.quiet.Unsettled := by
  cases reading with
  | settled request => exact absurd rfl (h request)
  | ready given => exact fun _ hne => nomatch hne
  | awaiting given option => exact fun _ hne => nomatch hne
  | ended given => exact fun _ hne => nomatch hne

/-! ## Values and switches -/

theorem set?_quiet (given : GivenOptions) (option : ValueOption) (value : String) :
    given.quiet.set? option value = (given.set? option value).map GivenOptions.quiet := by
  cases option <;> simp only [GivenOptions.set?, Option.map_map] <;> rfl

theorem verbosity_of_set? {option : ValueOption} {value : String} {next : GivenOptions}
    (h : given.set? option value = some next) : next.verbosity = given.verbosity := by
  cases option <;> simp only [GivenOptions.set?, Option.map_eq_some_iff] at h <;>
    obtain ⟨_, -, rfl⟩ := h <;> rfl

/-- Values do not depend on the flags and are none. -/
theorem counts_assign {option : ValueOption} {value : String}
    (h : (assign given option value).Unsettled) :
    Counts given.verbosity (assign given option value) (assign given.quiet option value) := by
  unfold assign at h ⊢
  rw [set?_quiet]
  cases hset : given.set? option value with
  | none =>
      rw [hset] at h
      exact absurd rfl (h _)
  | some next => exact ⟨rfl, verbosity_of_set? hset⟩

/-- A switch that does not settle the request goes on; it is the flag, or it is noted alike
without the flags. -/
theorem note_cases {switch : Switch} (h : (note given switch).Unsettled) :
    ∃ next, note given switch = ready next ∧
      ((switch = .verbose ∧ next.quiet = given.quiet ∧ next.verbosity = given.verbosity + 1) ∨
        (switch ≠ .verbose ∧ note given.quiet switch = ready next.quiet ∧
          next.verbosity = given.verbosity)) := by
  cases switch with
  | append =>
      cases hgiven : given.append with
      | true => exact absurd (by simp [note, hgiven]) (h .invalid)
      | false =>
          exact ⟨{ given with append := true }, by simp [note, hgiven],
            Or.inr ⟨by decide, by simp [note, GivenOptions.quiet, hgiven], rfl⟩⟩
  | noEscapes =>
      cases hgiven : given.noEscapes with
      | true => exact absurd (by simp [note, hgiven]) (h .invalid)
      | false =>
          exact ⟨{ given with noEscapes := true }, by simp [note, hgiven],
            Or.inr ⟨by decide, by simp [note, GivenOptions.quiet, hgiven], rfl⟩⟩
  | verbose => exact ⟨_, rfl, Or.inl ⟨rfl, rfl, rfl⟩⟩
  | version => exact absurd rfl (h _)
  | help => exact absurd rfl (h _)

/-! ## Letters, long options, arguments -/

/-- Letters amount to the same without the flags among them. -/
theorem counts_readLetters {letters : List Char} (h : (readLetters given letters).Unsettled) :
    Counts (given.verbosity + Argument.flagsOfLetters letters) (readLetters given letters)
      (readLetters given.quiet (Argument.quietLetters letters)) := by
  induction letters generalizing given with
  | nil => exact ⟨rfl, rfl⟩
  | cons letter rest ih =>
      cases hname : OptionName.ofLetter? letter with
      | none =>
          simp only [readLetters, hname] at h
          exact absurd rfl (h _)
      | some name =>
          cases name with
          | valued option =>
              -- What follows is a value, so no flag is left.
              obtain ⟨hletters, hflags⟩ := Argument.letters_of_name hname rest
              rw [hletters, hflags]
              simp only [readLetters, hname] at h ⊢
              split
              case isTrue => exact ⟨rfl, rfl⟩
              case isFalse hrest =>
                rw [if_neg hrest] at h
                exact counts_assign h
          | switch switch =>
              have hnote : (note given switch).Unsettled := by
                intro request hsettled
                simp only [readLetters, hname, hsettled] at h
                exact h request rfl
              obtain ⟨next, hnext, hcase⟩ := note_cases hnote
              simp only [readLetters, hname, hnext] at h ⊢
              rcases hcase with ⟨rfl, hquiet, hverbosity⟩ | ⟨hother, hquiet, hverbosity⟩
              · obtain ⟨hletters, hflags⟩ := Argument.letters_of_name hname rest
                rw [hletters, hflags]
                have hrest := ih h
                rw [hquiet, hverbosity] at hrest
                rwa [← Nat.add_assoc, Nat.add_right_comm]
              · obtain ⟨hletters, hflags⟩ := Argument.letters_of_switch hname hother rest
                rw [hletters, hflags, ← hverbosity]
                simp only [readLetters, hname, hquiet]
                exact ih h

/-- Letters that are read do not start with a dash, and without the flags they still do
not. -/
theorem head_quietLetters_ne_dash {letters quiet : List Char} {letter : Char}
    (h : (readLetters given letters).Unsettled)
    (hquiet : Argument.quietLetters letters = letter :: quiet) : letter ≠ '-' := by
  rintro rfl
  have hreads := (counts_readLetters h).quiet
  rw [hquiet] at hreads
  exact h.quiet .invalid hreads.symm

theorem ofLong?_eq_verbose {name : String}
    (h : OptionName.ofLong? name = some (.switch .verbose)) : name = "verbose" := by
  unfold OptionName.ofLong? at h
  split at h <;> simp_all

/-- A long option other than the flag is read alike. -/
theorem counts_readLong {body : List Char} (hbody : String.ofList body ≠ "verbose")
    (h : (readLong given body).Unsettled) :
    Counts given.verbosity (readLong given body) (readLong given.quiet body) := by
  unfold readLong at h ⊢
  split
  case h_1 name value hcut =>
    simp only [hcut] at h
    split
    case h_1 option hname =>
      simp only [hname] at h
      exact counts_assign h
    case h_2 hname =>
      split at h
      case h_1 option hoption => exact absurd hoption (hname option)
      case h_2 => exact absurd rfl (h _)
  case h_2 hcut =>
    simp only [hcut] at h
    split
    case h_1 option hname => exact ⟨rfl, rfl⟩
    case h_2 switch hname =>
      simp only [hname] at h
      obtain ⟨next, hnext, hcase⟩ := note_cases h
      rw [hnext]
      rcases hcase with ⟨rfl, -, -⟩ | ⟨-, hquiet, hverbosity⟩
      · exact absurd (ofLong?_eq_verbose hname) hbody
      · exact ⟨hquiet, hverbosity⟩
    case h_3 hname =>
      simp only [hname] at h
      exact absurd rfl (h _)

theorem step_ready_long {argument : String} {body : List Char}
    (h : argument.toList = '-' :: '-' :: body) :
    step (ready given) argument = if body = [] then ended given else readLong given body := by
  simp only [step, h]
  cases body <;> rfl

theorem step_ready_letters {argument : String} {letter : Char} {rest : List Char}
    (h : argument.toList = '-' :: letter :: rest) (hletter : letter ≠ '-') :
    step (ready given) argument = readLetters given (letter :: rest) := by
  simp only [step, h]
  split <;> simp_all

theorem step_awaiting {argument : String} {option : ValueOption}
    (h : ∀ letter rest, argument.toList ≠ '-' :: letter :: rest) :
    step (awaiting given option) argument = assign given option argument := by
  simp only [step]

/-- A list of letters stands for itself behind a single dash. -/
theorem foldl_quietLetters {letters : List Char} (h : (readLetters given letters).Unsettled) :
    ((match Argument.quietLetters letters with
      | [] => none
      | letters => some (String.ofList ('-' :: letters))).toList).foldl step (ready given.quiet) =
        readLetters given.quiet (Argument.quietLetters letters) := by
  cases hquiet : Argument.quietLetters letters with
  | nil => rfl
  | cons letter rest =>
      exact step_ready_letters (String.toList_ofList ..) (head_quietLetters_ne_dash h hquiet)

/-- One argument. -/
theorem counts_step {argument : String} (h : (step reading argument).Unsettled) :
    Counts (reading.verbosity + Argument.flags argument) (step reading argument)
      ((Argument.quiet? argument).toList.foldl step reading.quiet) := by
  have hform := Argument.form argument.toList
  generalize hchars : argument.toList = chars at hform
  cases reading with
  | settled request => exact absurd rfl (h request)
  | ended given => exact absurd rfl (h .invalid)
  | awaiting given option =>
      cases hform with
      | long body => exact absurd (by simp [step, hchars]) (h .invalid)
      | letters rest hletter => exact absurd (by simp [step, hchars]) (h .invalid)
      | value hvalue =>
          rw [← hchars] at hvalue
          obtain ⟨hquiet, hflags⟩ := Argument.quiet?_of_value hvalue
          rw [step_awaiting hvalue] at h ⊢
          rw [hquiet, hflags, Option.toList_some, List.foldl_cons, List.foldl_nil, quiet,
            step_awaiting hvalue]
          exact counts_assign h
  | ready given =>
      cases hform with
      | long body =>
          rw [step_ready_long hchars] at h ⊢
          simp only [Argument.quiet?, Argument.flags, hchars]
          by_cases hverbose : String.ofList body = "verbose"
          · obtain rfl : body = "verbose".toList := by
              rw [← hverbose, String.toList_ofList]
            exact ⟨rfl, rfl⟩
          rw [if_neg hverbose, if_neg hverbose, Option.toList_some, List.foldl_cons,
            List.foldl_nil, quiet, step_ready_long hchars]
          split
          case isTrue => exact ⟨rfl, rfl⟩
          case isFalse hbody =>
            rw [if_neg hbody] at h
            exact counts_readLong hverbose h
      | @letters letter rest hletter =>
          obtain ⟨hquiet, hflags⟩ := Argument.quiet?_of_letters hchars hletter
          rw [step_ready_letters hchars hletter] at h ⊢
          rw [hquiet, hflags, quiet, foldl_quietLetters h]
          exact counts_readLetters h
      | value hvalue =>
          refine absurd ?_ (h .invalid)
          simp only [step, hchars]
          split
          case h_1 => exact absurd rfl (hvalue _ _)
          case h_2 => exact absurd rfl (hvalue _ _)
          case h_3 => exact absurd rfl (hvalue _ _)
          case h_4 => rfl

/-! ## All arguments -/

theorem foldl_settled (request : Request) (arguments : List String) :
    arguments.foldl step (settled request) = settled request := by
  induction arguments with
  | nil => rfl
  | cons argument rest ih => exact ih

/-- Arguments that leave a request open leave the same one open without their flags. -/
theorem counts_foldl {arguments : List String} (h : (arguments.foldl step reading).Unsettled) :
    Counts (reading.verbosity + Argument.countFlags arguments) (arguments.foldl step reading)
      ((Argument.withoutFlags arguments).foldl step reading.quiet) := by
  induction arguments generalizing reading with
  | nil => exact ⟨rfl, rfl⟩
  | cons argument rest ih =>
      rw [List.foldl_cons] at h ⊢
      have hfirst : (step reading argument).Unsettled := by
        intro request hsettled
        rw [hsettled, foldl_settled] at h
        exact h request rfl
      obtain ⟨hquiet, hverbosity⟩ := counts_step hfirst
      obtain ⟨hquietRest, hverbosityRest⟩ := ih h
      constructor
      · rw [Argument.withoutFlags_cons, List.foldl_append, hquiet, hquietRest]
      · rw [hverbosityRest, hverbosity, Argument.countFlags, Nat.add_assoc]

/-- If a reading is settled, then by something else than a conversion. -/
def Proper (reading : Reading) : Prop :=
  ∀ options verbosity, reading ≠ settled (.convert options verbosity)

theorem proper_assign (given : GivenOptions) (option : ValueOption) (value : String) :
    (assign given option value).Proper := by
  unfold assign Proper
  split <;> simp

theorem proper_note (given : GivenOptions) (switch : Switch) : (note given switch).Proper := by
  cases switch with
  | append | noEscapes =>
      simp only [note]
      split <;> simp [Proper]
  | verbose | version | help => simp [note, Proper]

theorem proper_readLong (given : GivenOptions) (body : List Char) :
    (readLong given body).Proper := by
  unfold readLong
  split
  · split
    · exact proper_assign _ _ _
    · simp [Proper]
  · split
    · simp [Proper]
    · exact proper_note _ _
    · simp [Proper]

theorem proper_readLetters (given : GivenOptions) (letters : List Char) :
    (readLetters given letters).Proper := by
  induction letters generalizing given with
  | nil => simp [readLetters, Proper]
  | cons letter rest ih =>
      unfold readLetters
      split
      · split
        · simp [Proper]
        · exact proper_assign _ _ _
      · split
        · exact ih _
        · exact proper_note _ _
      · simp [Proper]

/-- Arguments settle a request for something else than a conversion only. -/
theorem Proper.step (h : reading.Proper) (argument : String) :
    (reading.step argument).Proper := by
  cases reading with
  | settled request => exact h
  | ended given => simp [Reading.step, Proper]
  | awaiting given option =>
      simp only [Reading.step]
      split
      · simp [Proper]
      · exact proper_assign _ _ _
  | ready given =>
      simp only [Reading.step]
      split
      · simp [Proper]
      · exact proper_readLong _ _
      · exact proper_readLetters _ _
      · simp [Proper]

/-- A conversion comes from options that were given to the end. -/
theorem Proper.unsettled_foldl (h : reading.Proper) {arguments : List String}
    {options : ConversionOptions} {verbosity : Nat}
    (hrequest : (arguments.foldl Reading.step reading).request = .convert options verbosity) :
    (arguments.foldl Reading.step reading).Unsettled := by
  induction arguments generalizing reading with
  | nil =>
      rintro request hsettled
      rw [List.foldl_nil] at hrequest hsettled
      rw [hsettled] at hrequest
      exact h options verbosity (hsettled.trans (congrArg settled hrequest))
  | cons argument rest ih => exact ih (h.step argument) hrequest

theorem request_given {options : ConversionOptions} {verbosity : Nat}
    (h : given.request = .convert options verbosity) :
    given.quiet.request = .convert options 0 ∧ given.verbosity = verbosity := by
  unfold GivenOptions.request at h
  split at h
  case h_1 htable hinput houtput =>
    cases h
    exact ⟨by simp [GivenOptions.request, GivenOptions.quiet, htable, hinput, houtput], rfl⟩
  case h_2 => cases h

/-- Without the flags read, a request for a conversion is one with no verbosity. -/
theorem request_quiet {options : ConversionOptions} {verbosity : Nat} (hopen : reading.Unsettled)
    (h : reading.request = .convert options verbosity) :
    reading.quiet.request = .convert options 0 ∧ reading.verbosity = verbosity := by
  cases reading with
  | settled request => exact absurd rfl (hopen request)
  | awaiting given option => cases h
  | ready given => exact request_given h
  | ended given => exact request_given h

end Reading

/-- Arguments for a conversion ask for the same one without their flags for more output, and
its verbosity is the number of these flags. -/
theorem Request.ofArguments_withoutFlags {arguments : List String} {options : ConversionOptions}
    {verbosity : Nat} (h : ofArguments arguments = .convert options verbosity) :
    ofArguments (Argument.withoutFlags arguments) = .convert options 0 ∧
      Argument.countFlags arguments = verbosity := by
  have hopen : (arguments.foldl Reading.step (.ready {})).Unsettled :=
    Reading.Proper.unsettled_foldl (by simp [Reading.Proper]) h
  obtain ⟨hquiet, hverbosity⟩ := Reading.counts_foldl hopen
  obtain ⟨hrequest, hcount⟩ := Reading.request_quiet hopen h
  rw [← hquiet] at hrequest
  rw [hverbosity] at hcount
  exact ⟨hrequest, (Nat.zero_add _).symm.trans hcount⟩

/-- A letter among others is taken out; one that is a value stays. -/
example : Argument.withoutFlags ["-vat", "t", "-vv", "--output=o", "-iv"] =
    ["-at", "t", "--output=o", "-iv"] := by
  decide +kernel

end StringAssembler
