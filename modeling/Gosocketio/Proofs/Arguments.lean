import Gosocketio.Spec.Emitter
import Mathlib.Data.List.Forall2

/-! Which argument lists a handler can be called with. `convertArg` passes an argument on
as it is to a parameter of type `any`, `map[string]any` or `[]any`, whatever its shape,
and everything else it decodes or refuses. -/

namespace Gosocketio

variable {T V : Type} {J : Json} {unmarshal : GoType T → Bytes → Option V}

/-- The argument has the shape of the type, for the types that get it as it is. -/
def GoType.fits : GoType T → Value → Bool
  | .any, .null => false
  | .any, _ => true
  | .mapStringAny, .obj _ => true
  | .mapStringAny, _ => false
  | .sliceAny, .arr _ => true
  | .sliceAny, _ => false
  | .socket, _ | .other _, _ => true

section Convert

variable {v : Value} {t : GoType T} {x : Reflected T V}

theorem fits_of_convertArg_eq_none (h : convertArg J unmarshal v t = none) (w : Value) : t.fits w = true := by
  cases t with
  | any | mapStringAny | sliceAny => cases h
  | socket | other t => rfl

variable [DecidableEq T]

theorem assignableTo_decoded (t : GoType T) (y : V) : (Reflected.decoded t y).assignableTo t = true :=
  decide_eq_true (Or.inr rfl)

theorem assignableTo_convertArg (h : convertArg J unmarshal v t = some x) : x.assignableTo t = t.fits v := by
  cases t with
  | any | mapStringAny | sliceAny =>
    obtain rfl := Option.some.inj h
    cases v <;> rfl
  | socket | other t =>
    obtain ⟨y, -, rfl⟩ := Option.map_eq_some_iff.mp h
    exact assignableTo_decoded _ y

theorem assignableTo_zero (t : GoType T) : (Reflected.zero t : Reflected T V).assignableTo t = true :=
  decide_eq_true (Or.inr rfl)

end Convert

section Bind

variable {ts : List (GoType T)} {args : List Value} {ins : List (Reflected T V)}

theorem bindArgs_nil (ts : List (GoType T)) : bindArgs J unmarshal ts [] = some (ts.map .zero) := by
  induction ts with
  | nil => rfl
  | cons t ts ih => rw [bindArgs, ih, Option.map_some, List.map_cons]

theorem bindArgs_eq_none (ts : List (GoType T)) (args : List Value) :
    bindArgs J unmarshal ts args = none ↔ ∃ p ∈ ts.zip args, convertArg J unmarshal p.2 p.1 = none := by
  induction ts generalizing args with
  | nil => simp [bindArgs]
  | cons t ts ih =>
    cases args with
    | nil => simp [bindArgs_nil]
    | cons v args =>
      rw [bindArgs, List.zip_cons_cons, List.exists_mem_cons_iff, ← ih]
      cases convertArg J unmarshal v t with
      | none | some => simp

theorem bindArgs_cons_cons {t : GoType T} {v : Value} (h : bindArgs J unmarshal (t :: ts) (v :: args) = some ins) :
    ∃ x xs, convertArg J unmarshal v t = some x ∧ bindArgs J unmarshal ts args = some xs ∧ ins = x :: xs := by
  obtain ⟨x, hx, h⟩ := Option.bind_eq_some_iff.mp h
  obtain ⟨xs, hxs, rfl⟩ := Option.map_eq_some_iff.mp h
  exact ⟨x, xs, hx, hxs, rfl⟩

theorem length_bindArgs (h : bindArgs J unmarshal ts args = some ins) : ins.length = ts.length := by
  induction ts generalizing args ins with
  | nil =>
    obtain rfl := Option.some.inj h
    rfl
  | cons t ts ih =>
    cases args with
    | nil =>
      rw [bindArgs_nil] at h
      obtain rfl := Option.some.inj h
      exact List.length_map ..
    | cons v args =>
      obtain ⟨x, xs, -, hxs, rfl⟩ := bindArgs_cons_cons h
      rw [List.length_cons, List.length_cons, ih hxs]

theorem getElem?_bindArgs (h : bindArgs J unmarshal ts args = some ins) {i : ℕ} {t : GoType T}
    (hi : ts[i]? = some t) :
    ins[i]? = match args[i]? with
      | some v => convertArg J unmarshal v t
      | none => some (.zero t) := by
  induction ts generalizing args ins i with
  | nil => cases hi
  | cons t' ts ih =>
    cases args with
    | nil =>
      rw [bindArgs_nil] at h
      obtain rfl := Option.some.inj h
      rw [List.getElem?_map, hi]
      rfl
    | cons v args =>
      obtain ⟨x, xs, hx, hxs, rfl⟩ := bindArgs_cons_cons h
      cases i with
      | zero =>
        obtain rfl : t' = t := Option.some.inj hi
        exact hx.symm
      | succ i => exact ih hxs hi

variable [DecidableEq T]

theorem all_zip_zero (ts : List (GoType T)) :
    ((ts.zip (ts.map .zero)).all fun p => (p.2 : Reflected T V).assignableTo p.1) = true := by
  induction ts with
  | nil => rfl
  | cons t ts ih => rw [List.map_cons, List.zip_cons_cons, List.all_cons, ih, assignableTo_zero, Bool.and_true]

theorem all_assignableTo_bindArgs (h : bindArgs J unmarshal ts args = some ins) :
    ((ts.zip ins).all fun p => p.2.assignableTo p.1) = (ts.zip args).all fun p => p.1.fits p.2 := by
  induction ts generalizing args ins with
  | nil => rfl
  | cons t ts ih =>
    cases args with
    | nil =>
      rw [bindArgs_nil] at h
      obtain rfl := Option.some.inj h
      exact all_zip_zero _
    | cons v args =>
      obtain ⟨x, xs, hx, hxs, rfl⟩ := bindArgs_cons_cons h
      rw [List.zip_cons_cons, List.zip_cons_cons, List.all_cons, List.all_cons, ih hxs,
        assignableTo_convertArg hx]

end Bind

section Server

variable [DecidableEq T]

/-- The handler runs, with a value for every parameter that can be assigned to it. -/
def Outcome.Proper (ht : List (GoType T)) : Outcome T V → Prop
  | .mismatch => True
  | .panics => False
  | .called ins _ => List.Forall₂ (fun t x => x.assignableTo t = true) ht ins

theorem forall₂_of_all_zip {ts : List (GoType T)} {ins : List (Reflected T V)} (hlen : ins.length = ts.length)
    (h : ((ts.zip ins).all fun p => p.2.assignableTo p.1) = true) :
    List.Forall₂ (fun t x => x.assignableTo t = true) ts ins := by
  refine List.forall₂_iff_zip.mpr ⟨hlen.symm, fun {t x} hmem => ?_⟩
  exact List.all_eq_true.mp h (t, x) hmem

theorem proper_reflectCall_iff {ts : List (GoType T)} {ins : List (Reflected T V)}
    {rest : Option (List (Reflected T V))} (hlen : ins.length = ts.length) :
    (reflectCall ts ins rest).Proper ts ↔ ((ts.zip ins).all fun p => p.2.assignableTo p.1) = true := by
  unfold reflectCall
  split_ifs with h
  · exact ⟨fun _ => h, fun _ => forall₂_of_all_zip hlen h⟩
  · exact ⟨False.elim, h⟩

/-- A server handler is called properly, or refused, exactly if an argument that has to
be decoded is refused or every other argument has the shape its parameter asks for; and
`convertArg` returns a value its caller can use exactly if the argument fits. -/
theorem invokeHandler_proper_iff (J : Json) (unmarshal : GoType T → Bytes → Option V) (ts : List (GoType T))
    (args : List Value) :
    ((invokeHandler J unmarshal (.socket :: ts) args).Proper (.socket :: ts) ↔
      (∃ p ∈ ts.zip args, convertArg J unmarshal p.2 p.1 = none) ∨ ∀ p ∈ ts.zip args, p.1.fits p.2 = true) ∧
    ∀ v t x, convertArg J unmarshal v t = some x → (x.assignableTo t = true ↔ t.fits v = true) := by
  refine ⟨?_, fun v t x h => by rw [assignableTo_convertArg h]⟩
  rw [invokeHandler, if_pos rfl, ← bindArgs_eq_none, ← List.all_eq_true]
  cases hbind : bindArgs J unmarshal ts args with
  | none => exact ⟨fun _ => .inl rfl, fun _ => trivial⟩
  | some ins =>
    rw [← all_assignableTo_bindArgs hbind]
    dsimp only
    rw [proper_reflectCall_iff (by rw [List.length_cons, List.length_cons, length_bindArgs hbind]),
      List.zip_cons_cons, List.all_cons]
    have hsocket : (Reflected.socket : Reflected T V).assignableTo .socket = true := rfl
    rw [hsocket, Bool.true_and]
    exact ⟨.inr, fun h => h.resolve_left nofun⟩

/-- A client sends null to a handler with a parameter of type `any`. -/
theorem null_argument_panics : ¬ ∀ (T V : Type) [DecidableEq T] (J : Json)
    (unmarshal : GoType T → Bytes → Option V) (ts : List (GoType T)) (args : List Value),
    (invokeHandler J unmarshal (.socket :: ts) args).Proper (.socket :: ts) ∧
      ∀ v t x, convertArg J unmarshal v t = some x → x.assignableTo t = true := by
  intro h
  let J : Json := ⟨fun _ => none, fun _ => none⟩
  exact (h Empty Empty J (fun _ _ => none) [.any] [.null]).1

end Server

section Client

theorem mapM_eq_none {α β : Type} {f : α → Option β} {l : List α} :
    l.mapM f = none ↔ ∃ v ∈ l, f v = none := by
  induction l with
  | nil => simp
  | cons v l ih =>
    rw [List.mapM_cons, List.exists_mem_cons_iff, ← ih]
    cases f v with
    | none => simp
    | some x => cases l.mapM f <;> simp

theorem map_some_of_mapM {α β : Type} {f : α → Option β} {l : List α} {xs : List β}
    (h : l.mapM f = some xs) : xs.map some = l.map f := by
  induction l generalizing xs with
  | nil =>
    obtain rfl := Option.some.inj h
    rfl
  | cons v l ih =>
    rw [List.mapM_cons] at h
    obtain ⟨x, hx, h⟩ := Option.bind_eq_some_iff.mp h
    obtain ⟨ys, hys, h⟩ := Option.bind_eq_some_iff.mp h
    obtain rfl := Option.some.inj h
    rw [List.map_cons, List.map_cons, ih hys, hx]

theorem fillSlice_eq [DecidableEq T] (t : GoType T) (rest : List Value) (slice : List (Reflected T V)) :
    fillSlice J unmarshal t rest slice = if rest.all t.fits then
        match rest.mapM fun v => convertArg J unmarshal v t with
        | none => .inl .mismatch
        | some xs => .inr (slice ++ xs)
      else .inl .panics := by
  induction rest generalizing slice with
  | nil => simp [fillSlice]
  | cons v rest ih =>
    rw [fillSlice, List.mapM_cons]
    cases hx : convertArg J unmarshal v t with
    | none =>
      have hall : (v :: rest).all t.fits = true :=
        List.all_eq_true.mpr fun w _ => fits_of_convertArg_eq_none hx w
      simp [hall]
    | some x =>
      dsimp only
      rw [List.all_cons, ← assignableTo_convertArg hx, ih]
      cases x.assignableTo t with
      | false => rfl
      | true =>
        cases rest.mapM fun v => convertArg J unmarshal v t with
        | none | some => simp

variable (J unmarshal) in
/-- An argument that a fixed parameter or the variadic one uses is refused. -/
def ClientHandler.Refuses (h : ClientHandler T) (args : List Value) : Prop :=
  (∃ p ∈ h.fixed.zip args, convertArg J unmarshal p.2 p.1 = none) ∨
    ∃ t ∈ h.variadic, ∃ v ∈ args.drop h.fixed.length, convertArg J unmarshal v t = none

variable (J unmarshal) in
/-- What matching the arguments with the parameters should come to. -/
def Outcome.Matches (h : ClientHandler T) (args : List Value) : Outcome T V → Prop
  | .mismatch => h.Refuses J unmarshal args
  | .panics => False
  | .called ins rest =>
    ins.length = h.fixed.length ∧
    (∀ (i : ℕ) t, h.fixed[i]? = some t → ins[i]? = match args[i]? with
      | some v => convertArg J unmarshal v t
      | none => some (.zero t)) ∧
    match h.variadic with
    | none => rest = none
    | some t => ∃ slice, rest = some slice ∧
        slice.map some = (args.drop h.fixed.length).map fun v => convertArg J unmarshal v t

variable [DecidableEq T]

theorem matches_reflectCall_iff {h : ClientHandler T} {args : List Value} {ins : List (Reflected T V)}
    {rest : Option (List (Reflected T V))} (hbind : bindArgs J unmarshal h.fixed args = some ins)
    (hrest : match h.variadic with
      | none => rest = none
      | some t => ∃ slice, rest = some slice ∧
          slice.map some = (args.drop h.fixed.length).map fun v => convertArg J unmarshal v t) :
    (reflectCall h.fixed ins rest).Matches J unmarshal h args ↔ ∀ p ∈ h.fixed.zip args, p.1.fits p.2 = true := by
  rw [← List.all_eq_true, ← all_assignableTo_bindArgs hbind, reflectCall]
  split_ifs with hall
  · exact ⟨fun _ => hall, fun _ => ⟨length_bindArgs hbind, fun i t hi => getElem?_bindArgs hbind hi, hrest⟩⟩
  · exact ⟨False.elim, hall⟩

/-- A client handler gets its arguments as it should exactly if a fixed parameter refuses
one, or the variadic parameter finds the list long enough and its arguments of the right
shape, and the call is reached only with fixed arguments of the right shape. -/
theorem invokeClientHandler_matches_iff (J : Json) (unmarshal : GoType T → Bytes → Option V)
    (h : ClientHandler T) (args : List Value) :
    (invokeClientHandler J unmarshal h args).Matches J unmarshal h args ↔
      (∃ p ∈ h.fixed.zip args, convertArg J unmarshal p.2 p.1 = none) ∨
        (∀ t ∈ h.variadic, h.fixed.length ≤ args.length ∧ ∀ v ∈ args.drop h.fixed.length, t.fits v = true) ∧
          (h.Refuses J unmarshal args ∨ ∀ p ∈ h.fixed.zip args, p.1.fits p.2 = true) := by
  rw [invokeClientHandler]
  cases hbind : bindArgs J unmarshal h.fixed args with
  | none =>
    have hrefused := (bindArgs_eq_none _ _).mp hbind
    exact ⟨fun _ => .inl hrefused, fun _ => .inl hrefused⟩
  | some ins =>
    have hbound : ¬ ∃ p ∈ h.fixed.zip args, convertArg J unmarshal p.2 p.1 = none := by
      rw [← bindArgs_eq_none, hbind]
      exact nofun
    rw [or_iff_right hbound, ClientHandler.Refuses, or_iff_right hbound]
    dsimp only
    cases hvar : h.variadic with
    | none =>
      rw [matches_reflectCall_iff hbind (by rw [hvar])]
      simp
    | some t =>
      simp only [Option.mem_some_iff, forall_eq', exists_eq_left']
      split_ifs with hshort
      · exact ⟨False.elim, fun hok => absurd hok.1.1 (not_le.mpr hshort)⟩
      · rw [fillSlice_eq]
        split_ifs with hall
        · rw [← List.all_eq_true, and_iff_right ⟨not_lt.mp hshort, hall⟩]
          cases hmap : (args.drop h.fixed.length).mapM fun v => convertArg J unmarshal v t with
          | none =>
            have hrefused := mapM_eq_none.mp hmap
            exact ⟨fun _ => .inl hrefused, fun _ => .inr ⟨t, hvar, hrefused⟩⟩
          | some slice =>
            have hslice : ¬ ∃ v ∈ args.drop h.fixed.length, convertArg J unmarshal v t = none := by
              rw [← mapM_eq_none, hmap]
              exact nofun
            rw [or_iff_right hslice]
            refine matches_reflectCall_iff hbind ?_
            rw [hvar]
            exact ⟨slice, rfl, map_some_of_mapM hmap⟩
        · exact ⟨False.elim, fun hok => hall (List.all_eq_true.mpr hok.1.2)⟩

/-- A server sends an event without arguments to a handler `func(a string, rest ...any)`. -/
theorem short_arguments_panic : ¬ ∀ (T V : Type) [DecidableEq T] (J : Json)
    (unmarshal : GoType T → Bytes → Option V) (h : ClientHandler T) (args : List Value),
    (invokeClientHandler J unmarshal h args).Matches J unmarshal h args := by
  intro h
  let J : Json := ⟨fun _ => none, fun _ => none⟩
  exact h Unit Unit J (fun _ _ => none) { fixed := [.other ()], variadic := some .any } []

end Client

end Gosocketio
