import Gosocketio.Spec.Packet

/-! Calling the handler of an event (`socketio/emitter.go`). The arguments are decoded
values of any shape, the parameters have Go types, and package `reflect` panics when it
is given a value that does not go with a type. `T` are the types that an argument is
decoded into with `json.Unmarshal`, and `V` is what comes out. -/

namespace Gosocketio

/-- The type of a parameter: `any`, `map[string]any`, `[]any`, `*Socket`, or another. -/
inductive GoType (T : Type) where
  | any
  | mapStringAny
  | sliceAny
  | socket
  | other (t : T)
  deriving DecidableEq

/-- A `reflect.Value`: the zero `Value`, an argument as it is, an argument decoded into
a new variable of the type, the zero value of the type, or the socket. -/
inductive Reflected (T V : Type) where
  | invalid
  | argument (v : Value)
  | decoded (t : GoType T) (x : V)
  | zero (t : GoType T)
  | socket

def reflectValueOf {T V : Type} : Value → Reflected T V
  | .null => .invalid
  | v => .argument v

/-- `Call` and `Set` take the value for something of type `t`. An argument as it is has
the type of its JSON shape, and only gets to the types `convertArg` singles out. -/
def Reflected.assignableTo {T V : Type} [DecidableEq T] (t : GoType T) : Reflected T V → Bool
  | .invalid => false
  | .argument v =>
    match t, v with
    | .any, _ | .mapStringAny, .obj _ | .sliceAny, .arr _ => true
    | _, _ => false
  | .decoded t' _ | .zero t' => t = .any ∨ t' = t
  | .socket => t = .any ∨ t = .socket

/-- What a call of a handler comes to: `ErrHandlerMismatch`, a panic, or the handler
runs. `rest` is what a variadic parameter gets. -/
inductive Outcome (T V : Type) where
  | mismatch
  | panics
  | called (ins : List (Reflected T V)) (rest : Option (List (Reflected T V)))

/-- The type of a client handler; `variadic` is the element type of the last parameter. -/
structure ClientHandler (T : Type) where
  fixed : List (GoType T)
  variadic : Option (GoType T) := none

inductive Returned where
  | nil
  | error (msg : Bytes)
  | value (v : Value)

def collectResults (outs : List Returned) : List Value :=
  outs.filterMap fun
    | .nil => none
    | .error msg => some (.str msg)
    | .value v => some v

section Invoke

variable {T V : Type} [DecidableEq T] (J : Json) (unmarshal : GoType T → Bytes → Option V)

def convertArg (v : Value) : GoType T → Option (Reflected T V)
  | .any | .mapStringAny | .sliceAny => some (reflectValueOf v)
  | t => ((J.marshal v).bind (unmarshal t)).map (.decoded t)

/-- The loop over the parameters, which gives those without an argument their zero
value. -/
def bindArgs : List (GoType T) → List Value → Option (List (Reflected T V))
  | [], _ => some []
  | t :: ts, [] => (bindArgs ts []).map (.zero t :: ·)
  | t :: ts, v :: args => (convertArg J unmarshal v t).bind fun x => (bindArgs ts args).map (x :: ·)

/-- `reflect.Value.Call`, and `CallSlice` with a slice of the right type. -/
def reflectCall (ts : List (GoType T)) (ins : List (Reflected T V)) (rest : Option (List (Reflected T V))) :
    Outcome T V :=
  if (ts.zip ins).all fun p => p.2.assignableTo p.1 then .called ins rest else .panics

def invokeHandler (ht : List (GoType T)) (args : List Value) : Outcome T V :=
  match ht with
  | [] => reflectCall [] [] none
  | t :: ts =>
    if t = .socket then
      match bindArgs J unmarshal ts args with
      | none => .mismatch
      | some ins => reflectCall (t :: ts) (.socket :: ins) none
    else .mismatch

def fillSlice (t : GoType T) : List Value → List (Reflected T V) → Outcome T V ⊕ List (Reflected T V)
  | [], slice => .inr slice
  | v :: rest, slice =>
    match convertArg J unmarshal v t with
    | none => .inl .mismatch
    | some x => if x.assignableTo t then fillSlice t rest (slice ++ [x]) else .inl .panics

def invokeClientHandler (h : ClientHandler T) (args : List Value) : Outcome T V :=
  match bindArgs J unmarshal h.fixed args with
  | none => .mismatch
  | some ins =>
    match h.variadic with
    | none => reflectCall h.fixed ins none
    | some t =>
      -- `args[fixed:]`
      if args.length < h.fixed.length then .panics
      else
        match fillSlice J unmarshal t (args.drop h.fixed.length) [] with
        | .inl r => r
        | .inr slice => reflectCall h.fixed ins (some slice)

end Invoke

end Gosocketio
