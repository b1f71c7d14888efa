/-
Evlampy/Arguments.lean

The command line of `chat/main.cpp`.  `parseArguments` goes through the arguments once.
An option has its value in the next argument, whatever that is, or behind an equals sign;
what comes later overrides what came before, and an argument that is no option is
reported and ignored.

`CommandLine` is the grammar: items, and how the line ends.  Every list of arguments is a
command line in exactly one way, and `parseArguments` does what that line says
(`parseArguments_eq`).
-/
import Evlampy.Cxx

namespace Evlampy

open Cxx

/-- What the command line can set. -/
structure DemoConfig where
  aliceName : Str
  bobName : Str
  alicePassword : Str
  bobPassword : Str
  message : Str
  deriving DecidableEq

namespace Demo

/-- The defaults. -/
def initial : DemoConfig where
  aliceName := str "alice"
  bobName := str "bob"
  alicePassword := str "alice_pass"
  bobPassword := str "bob_pass"
  message := str "Privet, Bob! Eto Evlampy demo s RSA + AES-GCM."

/-- What has been written to `std::cout` and to `std::cerr`. -/
structure Console where
  out : Str
  err : Str
  deriving DecidableEq

/-- Write to `std::cout`. -/
def Console.print (console : Console) (text : Str) : Console :=
  { console with out := console.out ++ text }

/-- Write to `std::cerr`. -/
def Console.printError (console : Console) (text : Str) : Console :=
  { console with err := console.err ++ text }

/-- What ends the program before `main` returns, or takes `main` to its handler. -/
inductive Halt
  | exit (code : Int)
  | threw (x : Exn)
  deriving DecidableEq

/-! ### Parsing -/

/-- What `printUsage` prints. -/
def usage : Str :=
  str "Usage: target_exec [--alice-name NAME] [--bob-name NAME] [--alice-pass PASS] [--bob-pass PASS] [--message TEXT]\n"

/-- What an option sets. -/
inductive Setting
  | aliceName
  | bobName
  | alicePassword
  | bobPassword
  | message
  deriving DecidableEq

namespace Setting

/-- The spelling of an option. -/
def option : Setting → String
  | aliceName => "--alice-name"
  | bobName => "--bob-name"
  | alicePassword => "--alice-pass"
  | bobPassword => "--bob-pass"
  | message => "--message"

/-- Assign to the destination of the option. -/
def assign : Setting → Str → DemoConfig → DemoConfig
  | aliceName, value, config => { config with aliceName := value }
  | bobName, value, config => { config with bobName := value }
  | alicePassword, value, config => { config with alicePassword := value }
  | bobPassword, value, config => { config with bobPassword := value }
  | message, value, config => { config with message := value }

/-- In the order they are tried. -/
def all : List Setting := [aliceName, bobName, alicePassword, bobPassword, message]

theorem mem_all (s : Setting) : s ∈ all := by cases s <;> decide

instance {p : Setting → Prop} [DecidablePred p] : Decidable (∀ s, p s) :=
  decidable_of_iff (∀ s ∈ all, p s) ⟨fun h s => h s (mem_all s), fun h s _ => h s⟩

end Setting

/-- An option with an equals sign behind it. -/
def assignment (option : String) : Str := str option ++ str "="

/-- `applyOption`, at the argument `current` with the arguments `rest` behind it: where it
returns true, the value, and by how many arguments it moves `index` on. -/
def applyOption (option : String) (current : Str) (rest : List Str) :
    Except StdException (Option (Str × Nat)) :=
  if current = str option then
    match rest with
    | [] => .error (.runtimeError (option ++ " requires a value"))
    | value :: _ => .ok (some (value, 1))
  else if assignment option <+: current then
    .ok (some (current.drop (assignment option).length, 0))
  else .ok none

/-- The calls of `applyOption` one after another, up to the first that returns true. -/
def applyOptions (config : DemoConfig) (current : Str) (rest : List Str) :
    List Setting → Except StdException (Option (DemoConfig × Nat))
  | [] => .ok none
  | s :: settings =>
      match applyOption s.option current rest with
      | .error e => .error e
      | .ok (some (value, moved)) => .ok (some (s.assign value config, moved))
      | .ok none => applyOptions config current rest settings

/-- The line for an argument nobody knows. -/
def warning (arg : Str) : Str := str "Warning: ignoring unknown argument '" ++ arg ++ str "'\n"

/-- The loop of `parseArguments`.  The first `moved` arguments are passed over, since
`index` has moved past them. -/
def parseLoop : DemoConfig → Console → Nat → List Str → Except Halt DemoConfig × Console
  | config, console, _, [] => (.ok config, console)
  | config, console, moved + 1, _ :: args => parseLoop config console moved args
  | config, console, 0, arg :: args =>
      if arg = str "-h" ∨ arg = str "--help" then (.error (.exit 0), console.print usage)
      else
        match applyOptions config arg args Setting.all with
        | .error e => (.error (.threw (.std e)), console)
        | .ok (some (config, moved)) => parseLoop config console moved args
        | .ok none => parseLoop config (console.printError (warning arg)) 0 args

/-- On the arguments behind the name of the program. -/
def parseArguments (args : List Str) (console : Console) : Except Halt DemoConfig × Console :=
  parseLoop initial console 0 args

/-! ### Arguments -/

/-- The two spellings of a call for help. -/
def helpText (long : Bool) : Str := if long then str "--help" else str "-h"

/-- The argument is neither a call for help nor an option. -/
def IsUnknown (arg : Str) : Prop :=
  (∀ long, arg ≠ helpText long) ∧
    ∀ s : Setting, arg ≠ str s.option ∧ ¬ assignment s.option <+: arg

instance : DecidablePred IsUnknown := fun _ => inferInstanceAs (Decidable (_ ∧ _))

/-- What an argument can be where an option is expected. -/
inductive Word
  | help (long : Bool)
  | option (s : Setting)
  | assigned (s : Setting) (value : Str)
  | unknown (arg : Str) (h : IsUnknown arg)

/-- The argument itself. -/
def Word.text : Word → Str
  | help long => helpText long
  | option s => str s.option
  | assigned s value => assignment s.option ++ value
  | unknown arg _ => arg

/-- The equals sign. -/
def equals : UInt8 := 61

theorem equals_notMem_option : ∀ s : Setting, equals ∉ str s.option := by decide

theorem equals_notMem_helpText : ∀ long, equals ∉ helpText long := by decide

theorem option_injective : ∀ s s' : Setting, str s.option = str s'.option → s = s' := by decide

theorem helpText_ne_option : ∀ long, ∀ s : Setting, helpText long ≠ str s.option := by decide

theorem helpText_injective : ∀ long long', helpText long = helpText long' → long = long' := by
  decide

theorem assignment_append (s : Setting) (value : Str) :
    assignment s.option ++ value = str s.option ++ equals :: value := by
  rw [assignment, List.append_assoc]
  rfl

/-- The equals sign shows where the option ends. -/
theorem assignment_injective {s s' : Setting} {value value' : Str}
    (h : assignment s.option ++ value = assignment s'.option ++ value') :
    s = s' ∧ value = value' := by
  have hs : s = s' := by
    apply option_injective
    have htake : ∀ (s : Setting) (value : Str),
        (assignment s.option ++ value).takeWhile (· ≠ equals) = str s.option := by
      intro s value
      rw [assignment_append, List.takeWhile_append_of_pos, List.takeWhile_cons_of_neg (by simp),
        List.append_nil]
      intro b hb
      rw [decide_eq_true_eq]
      rintro rfl
      exact equals_notMem_option s hb
    rw [← htake s value, h, htake]
  subst hs
  exact ⟨rfl, List.append_cancel_left h⟩

theorem equals_mem_assignment (s : Setting) (value : Str) :
    equals ∈ assignment s.option ++ value := by
  rw [assignment_append]
  exact List.mem_append_right _ List.mem_cons_self

/-- An argument is one word. -/
theorem Word.text_injective : Function.Injective Word.text := by
  have hassigned : ∀ (s : Setting) value long, helpText long ≠ assignment s.option ++ value :=
    fun s value long h => equals_notMem_helpText long (h ▸ equals_mem_assignment s value)
  have hoption : ∀ (s : Setting) value (s' : Setting), str s'.option ≠ assignment s.option ++ value :=
    fun s value s' h => equals_notMem_option s' (h ▸ equals_mem_assignment s value)
  have hopt : ∀ (s : Setting) (value : Str), assignment s.option <+: assignment s.option ++ value :=
    fun s value => List.prefix_append _ _
  intro word word' h
  cases word with
  | help long =>
      cases word' with
      | help long' => rw [helpText_injective long long' h]
      | option s => exact absurd h (helpText_ne_option long s)
      | assigned s value => exact absurd h (hassigned s value long)
      | unknown arg hu => exact absurd h.symm (hu.1 long)
  | option s =>
      cases word' with
      | help long => exact absurd h.symm (helpText_ne_option long s)
      | option s' => rw [option_injective s s' h]
      | assigned s' value => exact absurd h (hoption s' value s)
      | unknown arg hu => exact absurd h.symm (hu.2 s).1
  | assigned s value =>
      cases word' with
      | help long => exact absurd h.symm (hassigned s value long)
      | option s' => exact absurd h.symm (hoption s value s')
      | assigned s' value' =>
          obtain ⟨rfl, rfl⟩ := assignment_injective h
          rfl
      | unknown arg hu =>
          obtain rfl : assignment s.option ++ value = arg := h
          exact absurd (hopt s value) (hu.2 s).2
  | unknown arg hu =>
      cases word' with
      | help long => exact absurd h (hu.1 long)
      | option s => exact absurd h (hu.2 s).1
      | assigned s value =>
          obtain rfl : arg = assignment s.option ++ value := h
          exact absurd (hopt s value) (hu.2 s).2
      | unknown arg' hu' =>
          obtain rfl : arg = arg' := h
          rfl

/-- Every argument is a word. -/
theorem Word.exists_text (arg : Str) : ∃ word : Word, word.text = arg := by
  by_cases hu : IsUnknown arg
  · exact ⟨.unknown arg hu, rfl⟩
  · rw [IsUnknown, not_and_or] at hu
    rcases hu with hhelp | hoption
    · push Not at hhelp
      obtain ⟨long, rfl⟩ := hhelp
      exact ⟨.help long, rfl⟩
    · push Not at hoption
      obtain ⟨s, hs⟩ := hoption
      by_cases h : arg = str s.option
      · exact ⟨.option s, h.symm⟩
      · obtain ⟨value, rfl⟩ := hs h
        exact ⟨.assigned s value, rfl⟩

/-! ### Command lines -/

/-- One or two arguments that belong together. -/
inductive Item
  | separate (s : Setting) (value : Str)
  | joined (s : Setting) (value : Str)
  | unknown (arg : Str) (h : IsUnknown arg)

namespace Item

/-- An item as arguments. -/
def args : Item → List Str
  | separate s value => [str s.option, value]
  | joined s value => [assignment s.option ++ value]
  | unknown arg _ => [arg]

/-- What an item sets. -/
def config : Item → DemoConfig → DemoConfig
  | separate s value => s.assign value
  | joined s value => s.assign value
  | unknown _ _ => id

/-- What is reported of the item. -/
def report : Item → Str
  | separate .. => []
  | joined .. => []
  | unknown arg _ => warning arg

end Item

/-- How the arguments end: with a call for help, after which nothing is looked at, or with
an option that has no value behind it. -/
inductive Ending
  | complete
  | help (long : Bool) (rest : List Str)
  | dangling (s : Setting)

/-- The arguments of an ending. -/
def Ending.args : Ending → List Str
  | complete => []
  | help long rest => helpText long :: rest
  | dangling s => [str s.option]

/-- What a line comes to, with the configuration `config` before its end. -/
def Ending.outcome (config : DemoConfig) (console : Console) :
    Ending → Except Halt DemoConfig × Console
  | complete => (.ok config, console)
  | help _ _ => (.error (.exit 0), console.print usage)
  | dangling s =>
      (.error (.threw (.std (.runtimeError (s.option ++ " requires a value")))), console)

/-- A command line, taken apart. -/
structure CommandLine where
  items : List Item
  ending : Ending

namespace CommandLine

variable (line : CommandLine)

/-- All arguments of the line, in order. -/
def args : List Str := line.items.flatMap Item.args ++ line.ending.args

/-- The settings one after another, over a configuration. -/
def configFrom (config : DemoConfig) : DemoConfig :=
  line.items.foldl (fun config item => item.config config) config

/-- What the line sets, over the defaults. -/
def config : DemoConfig := line.configFrom initial

/-- The reports of its items. -/
def reports : Str := line.items.flatMap Item.report

end CommandLine

/-! ### What is parsed -/

variable {config : DemoConfig} {console : Console}

/-- The setting of an option. -/
def Word.setting : Word → Option Setting
  | option s => some s
  | assigned s _ => some s
  | _ => none

/-- What an argument and those behind it set, if it is an option. -/
def Word.applied (config : DemoConfig) (rest : List Str) :
    Word → Except StdException (Option (DemoConfig × Nat))
  | option s =>
      match rest with
      | [] => .error (.runtimeError (s.option ++ " requires a value"))
      | value :: _ => .ok (some (s.assign value config, 1))
  | assigned s value => .ok (some (s.assign value config, 0))
  | _ => .ok none

theorem applyOption_option (s : Setting) (rest : List Str) :
    applyOption s.option (Word.option s).text rest
      = match rest with
        | [] => .error (.runtimeError (s.option ++ " requires a value"))
        | value :: _ => .ok (some (value, 1)) := by
  unfold applyOption
  rw [if_pos (show (Word.option s).text = str s.option from rfl)]

theorem applyOption_assigned (s : Setting) (value : Str) (rest : List Str) :
    applyOption s.option (Word.assigned s value).text rest = .ok (some (value, 0)) := by
  have hne : (Word.assigned s value).text ≠ str s.option := by
    intro h
    have hword := @Word.text_injective (.assigned s value) (.option s) h
    cases hword
  have hopt : assignment s.option <+: (Word.assigned s value).text := List.prefix_append _ _
  unfold applyOption
  rw [if_neg hne, if_pos hopt, Word.text, List.drop_left]

/-- A word is not taken for another option. -/
theorem applyOption_of_ne {word : Word} {s : Setting} (hne : word.setting ≠ some s)
    (rest : List Str) : applyOption s.option word.text rest = .ok none := by
  have hoption : word.text ≠ str s.option := by
    intro h
    obtain rfl := @Word.text_injective word (.option s) h
    exact hne rfl
  have hassigned : ¬ assignment s.option <+: word.text := by
    rintro ⟨value, h⟩
    obtain rfl := @Word.text_injective (.assigned s value) word h
    exact hne rfl
  unfold applyOption
  rw [if_neg hoption, if_neg hassigned]

/-- The order in which the options are tried makes no difference. -/
theorem applyOptions_eq (word : Word) (rest : List Str) {settings : List Setting}
    (hmem : ∀ s, word.setting = some s → s ∈ settings) :
    applyOptions config word.text rest settings = word.applied config rest := by
  induction settings with
  | nil =>
      cases word with
      | option s => cases hmem s rfl
      | assigned s value => cases hmem s rfl
      | _ => rfl
  | cons s settings ih =>
      by_cases hs : word.setting = some s
      · rw [applyOptions]
        cases word with
        | option s' =>
            cases hs
            rw [applyOption_option]
            cases rest <;> rfl
        | assigned s' value =>
            cases hs
            rw [applyOption_assigned]
            rfl
        | _ => cases hs
      · rw [applyOptions, applyOption_of_ne hs]
        refine ih fun s' hs' => ?_
        rcases List.mem_cons.mp (hmem s' hs') with rfl | hin
        · exact absurd hs' hs
        · exact hin

/-- One round of the loop. -/
theorem parseLoop_cons (word : Word) (rest : List Str) :
    parseLoop config console 0 (word.text :: rest)
      = match word with
        | .help _ => (.error (.exit 0), console.print usage)
        | word =>
            match word.applied config rest with
            | .error e => (.error (.threw (.std e)), console)
            | .ok (some (config, moved)) => parseLoop config console moved rest
            | .ok none => parseLoop config (console.printError (warning word.text)) 0 rest := by
  have hhelp : (word.text = str "-h" ∨ word.text = str "--help") ↔ ∃ long, word = .help long := by
    constructor
    · rintro (h | h)
      · exact ⟨false, @Word.text_injective word (.help false) h⟩
      · exact ⟨true, @Word.text_injective word (.help true) h⟩
    · rintro ⟨long, rfl⟩
      cases long
      · exact Or.inl rfl
      · exact Or.inr rfl
  rw [parseLoop, applyOptions_eq word rest fun s _ => s.mem_all]
  cases word with
  | help long => rw [if_pos (hhelp.mpr ⟨long, rfl⟩)]
  | option s => rw [if_neg (fun h => nomatch hhelp.mp h)]
  | assigned s value => rw [if_neg (fun h => nomatch hhelp.mp h)]
  | unknown arg hu => rw [if_neg (fun h => nomatch hhelp.mp h)]

/-- An item is gone through. -/
theorem parseLoop_item (item : Item) (rest : List Str) :
    parseLoop config console 0 (item.args ++ rest)
      = parseLoop (item.config config) (console.printError item.report) 0 rest := by
  have hsilent : console.printError [] = console := by
    rw [Console.printError, List.append_nil]
  cases item with
  | separate s value =>
      refine (parseLoop_cons (.option s) (value :: rest)).trans ?_
      rw [Item.report, hsilent]
      rfl
  | joined s value =>
      refine (parseLoop_cons (.assigned s value) rest).trans ?_
      rw [Item.report, hsilent]
      rfl
  | unknown arg hu => exact parseLoop_cons (.unknown arg hu) rest

theorem printError_append (text text' : Str) :
    (console.printError text).printError text' = console.printError (text ++ text') := by
  rw [Console.printError, Console.printError, Console.printError, List.append_assoc]

theorem parseLoop_line (line : CommandLine) : parseLoop config console 0 line.args
    = line.ending.outcome (line.configFrom config) (console.printError line.reports) := by
  obtain ⟨items, ending⟩ := line
  induction items generalizing config console with
  | nil =>
      have hsilent : console.printError [] = console := by
        rw [Console.printError, List.append_nil]
      show parseLoop config console 0 ending.args
        = ending.outcome config (console.printError [])
      rw [hsilent]
      cases ending with
      | complete => rfl
      | help long rest => exact parseLoop_cons (.help long) rest
      | dangling s => exact parseLoop_cons (.option s) []
  | cons item items ih =>
      have hargs : CommandLine.args ⟨item :: items, ending⟩
          = item.args ++ CommandLine.args ⟨items, ending⟩ := by
        rw [CommandLine.args, List.flatMap_cons, List.append_assoc]
        rfl
      rw [hargs, parseLoop_item, ih, printError_append]
      rfl

/-! ### Reading -/

/-- All arguments are a command line. -/
theorem exists_line : ∀ args : List Str, ∃ line : CommandLine, line.args = args
  | [] => ⟨⟨[], .complete⟩, rfl⟩
  | arg :: args => by
      obtain ⟨word, rfl⟩ := Word.exists_text arg
      have hitem : ∀ (item : Item) (rest : List Str), (∃ line : CommandLine, line.args = rest) →
          ∃ line : CommandLine, line.args = item.args ++ rest := by
        rintro item rest ⟨⟨items, ending⟩, rfl⟩
        refine ⟨⟨item :: items, ending⟩, ?_⟩
        rw [CommandLine.args, List.flatMap_cons, List.append_assoc]
        rfl
      cases word with
      | help long => exact ⟨⟨[], .help long args⟩, rfl⟩
      | option s =>
          match args with
          | [] => exact ⟨⟨[], .dangling s⟩, rfl⟩
          | value :: rest => exact hitem (.separate s value) rest (exists_line rest)
      | assigned s value => exact hitem (.joined s value) args (exists_line args)
      | unknown arg hu => exact hitem (.unknown arg hu) args (exists_line args)

/-- The first word of an item. -/
def Item.word : Item → Word
  | separate s _ => .option s
  | joined s value => .assigned s value
  | unknown arg h => .unknown arg h

/-- What stands behind it. -/
def Item.tail : Item → List Str
  | separate _ value => [value]
  | _ => []

theorem Item.args_eq (item : Item) : item.args = item.word.text :: item.tail := by
  cases item <;> rfl

theorem args_cons (item : Item) (items : List Item) (ending : Ending) :
    CommandLine.args ⟨item :: items, ending⟩
      = item.word.text :: (item.tail ++ CommandLine.args ⟨items, ending⟩) := by
  rw [CommandLine.args, List.flatMap_cons, item.args_eq, List.append_assoc]
  rfl

/-- A line that ends is not one that goes on. -/
theorem ending_args_ne (ending ending' : Ending) (item : Item) (items : List Item) :
    ending.args ≠ CommandLine.args ⟨item :: items, ending'⟩ := by
  rw [args_cons]
  cases ending with
  | complete => exact fun h => by cases h
  | help long rest =>
      intro h
      have hword := @Word.text_injective (.help long) item.word (List.cons.inj h).1
      cases item <;> cases hword
  | dangling s =>
      intro h
      have hword := @Word.text_injective (.option s) item.word (List.cons.inj h).1
      cases item with
      | separate s' value => cases (List.cons.inj h).2
      | _ => cases hword

theorem Ending.args_injective : Function.Injective Ending.args := by
  have hne : ∀ (long : Bool) (s : Setting), helpText long ≠ str s.option := helpText_ne_option
  intro ending ending' h
  cases ending with
  | complete =>
      cases ending' with
      | complete => rfl
      | _ => cases h
  | help long rest =>
      cases ending' with
      | complete => cases h
      | help long' rest' =>
          obtain ⟨hlong, rfl⟩ := List.cons.inj h
          rw [helpText_injective long long' hlong]
      | dangling s => exact absurd (List.cons.inj h).1 (hne long s)
  | dangling s =>
      cases ending' with
      | complete => cases h
      | help long rest => exact absurd (List.cons.inj h).1.symm (hne long s)
      | dangling s' => rw [option_injective s s' (List.cons.inj h).1]

/-- Arguments are a command line in one way only. -/
theorem args_injective : Function.Injective CommandLine.args := by
  rintro ⟨items, ending⟩ ⟨items', ending'⟩ h
  induction items generalizing items' with
  | nil =>
      cases items' with
      | nil =>
          cases @Ending.args_injective ending ending' h
          rfl
      | cons item items' => exact absurd h (ending_args_ne ending ending' item items')
  | cons item items ih =>
      cases items' with
      | nil => exact absurd h.symm (ending_args_ne ending' ending item items)
      | cons item' items' =>
          rw [args_cons, args_cons] at h
          obtain ⟨hword, htail⟩ := List.cons.inj h
          replace hword := Word.text_injective hword
          have hitem : item = item' ∧ CommandLine.args ⟨items, ending⟩
              = CommandLine.args ⟨items', ending'⟩ := by
            cases item with
            | separate s value =>
                cases item' with
                | separate s' value' =>
                    cases hword
                    obtain ⟨rfl, hrest⟩ := List.cons.inj htail
                    exact ⟨rfl, hrest⟩
                | _ => cases hword
            | joined s value =>
                cases item' with
                | joined s' value' =>
                    cases hword
                    exact ⟨rfl, htail⟩
                | _ => cases hword
            | unknown arg hu =>
                cases item' with
                | unknown arg' hu' =>
                    cases hword
                    exact ⟨rfl, htail⟩
                | _ => cases hword
          obtain ⟨rfl, hrest⟩ := hitem
          cases ih items' hrest
          rfl

theorem parseArguments_line (line : CommandLine) (console : Console) :
    parseArguments line.args console
      = line.ending.outcome line.config (console.printError line.reports) :=
  parseLoop_line line

/-- **The command line.**  Arguments are a command line in exactly one way, and the program
takes them as that line says: the settings one after another, the last one of a kind
winning, with a report of everything else; up to a call for help, or to an option that is
last and so has no value. -/
theorem parseArguments_eq (args : List Str) : (∃! line : CommandLine, line.args = args) ∧
    ∀ line : CommandLine, line.args = args → ∀ console, parseArguments args console
      = line.ending.outcome line.config (console.printError line.reports) := by
  refine ⟨?_, ?_⟩
  · obtain ⟨line, rfl⟩ := exists_line args
    exact ⟨line, rfl, fun line' h => args_injective h⟩
  · rintro line rfl console
    exact parseArguments_line line console

/-- A value may look like an option, and settings are overridden. -/
example : parseArguments [str "--message", str "--help", str "x", str "--bob-name=b=b",
      str "--bob-name", str "carol"] ⟨[], []⟩
    = (.ok { initial with message := str "--help", bobName := str "carol" },
      ⟨[], str "Warning: ignoring unknown argument 'x'\n"⟩) := by
  decide +kernel

end Demo

end Evlampy
