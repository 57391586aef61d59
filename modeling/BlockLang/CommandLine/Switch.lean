/-!
# Switches

Reading the arguments of a command. A command has switches, some of which take a value, and plain
arguments. Arguments are taken in from left to right, and the first one that does not fit decides.
-/

namespace BlockLang.CommandLine

/-- Why arguments lead to no command. -/
inductive Stop where
  | rejected
  | help
  | version
deriving Repr, DecidableEq

/-- What a switch does to the settings `σ` of a command. No result means that it does not fit. -/
inductive Effect (σ : Type) where
  | flag (apply : σ → Option σ)
  /-- A switch with a value, which can be a negative number if `negative` holds. -/
  | value (negative : Bool) (apply : String → σ → Option σ)
  | stop (stop : Stop)

structure Switch (σ : Type) where
  /-- The name after two dashes. -/
  long : String
  /-- The name after one dash. -/
  short : Option Char := none
  effect : Effect σ

/-- What an argument looks like. -/
inductive Shape where
  | plain
  /-- Two dashes, after which all arguments are plain. -/
  | dashes
  /-- A name after two dashes, with the text behind the first equals sign if there is one. -/
  | long (name : String) (value : Option String)
  /-- Characters after one dash. -/
  | short (names : List Char)

/-- A dash alone is a plain argument. -/
def Shape.of : List Char → Shape
  | ['-'] => plain
  | ['-', '-'] => dashes
  | '-' :: '-' :: name =>
    match name.dropWhile (· != '=') with
    | _ :: value => long (.ofList (name.takeWhile (· != '='))) (some (.ofList value))
    | [] => long (.ofList name) none
  | '-' :: names => short names
  | _ => plain

/-- Whether the text after a dash makes the argument a negative number: digits with at most one
point and then at most one `e` or `E`, none of them first, and the letter not last. -/
def isNumber (text : List Char) : Bool :=
  let rest := text.dropWhile Char.isDigit
  let rest := match rest with
    | '.' :: fraction => if rest.length < text.length then fraction.dropWhile Char.isDigit else rest
    | rest => rest
  match rest with
  | [] => true
  | mark :: digits =>
    (mark == 'e' || mark == 'E') && rest.length < text.length && !digits.isEmpty &&
      digits.all Char.isDigit

/-- A switch whose value is still to come. -/
structure Pending (σ : Type) where
  negative : Bool
  apply : String → σ → Option σ

variable {σ : Type}

def orRejected {α : Type} : Option α → Except Stop α
  | some a => .ok a
  | none => .error .rejected

/-- Takes in the switches in the characters after one dash. Behind a switch that takes a value, the
other characters are the value, with or without an equals sign in front. -/
def applyShort (switches : List (Switch σ)) :
    List Char → σ → Except Stop (σ × Option (Pending σ))
  | [], s => .ok (s, none)
  | c :: cs, s =>
    match (switches.find? (·.short == some c)).map Switch.effect with
    | none => .error .rejected
    | some (.stop stop) => .error stop
    | some (.flag apply) =>
      match apply s with
      | some s => applyShort switches cs s
      | none => .error .rejected
    | some (.value negative apply) =>
      match cs with
      | [] => .ok (s, some ⟨negative, apply⟩)
      | '=' :: value => (orRejected (apply (.ofList value) s)).map (·, none)
      | value => (orRejected (apply (.ofList value) s)).map (·, none)

/-- Takes in a switch with a long name. -/
def applyLong (switches : List (Switch σ)) (name : String) (value : Option String) (s : σ) :
    Except Stop (σ × Option (Pending σ)) :=
  match (switches.find? (·.long == name)).map Switch.effect, value with
  | some (.stop stop), none => .error stop
  | some (.flag apply), none => (orRejected (apply s)).map (·, none)
  | some (.value negative apply), none => .ok (s, some ⟨negative, apply⟩)
  | some (.value _ apply), some value => (orRejected (apply value s)).map (·, none)
  | _, _ => .error .rejected

/-- Takes in arguments. A switch that waits for its value takes the next argument, unless that
looks like a switch. -/
def applyAll (switches : List (Switch σ)) (plain : String → σ → Option σ) :
    Option (Pending σ) → List String → σ → Except Stop σ
  | none, [], s => .ok s
  | some _, [], _ => .error .rejected
  | some pending, arg :: args, s =>
    -- Even two dashes alone do not fit, so that the switch is left without a value.
    let fits := match Shape.of arg.toList with
      | .plain => true
      | .short names => pending.negative && isNumber names
      | _ => false
    if fits then
      match pending.apply arg s with
      | some s => applyAll switches plain none args s
      | none => .error .rejected
    else .error .rejected
  | none, arg :: args, s =>
    match Shape.of arg.toList with
    | .plain =>
      match plain arg s with
      | some s => applyAll switches plain none args s
      | none => .error .rejected
    | .dashes => orRejected (args.foldlM (fun s arg => plain arg s) s)
    | .long name value =>
      match applyLong switches name value s with
      | .ok (s, pending) => applyAll switches plain pending args s
      | .error stop => .error stop
    | .short names =>
      match applyShort switches names s with
      | .ok (s, pending) => applyAll switches plain pending args s
      | .error stop => .error stop

end BlockLang.CommandLine
