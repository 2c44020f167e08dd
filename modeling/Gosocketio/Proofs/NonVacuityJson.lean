import Gosocketio.Sanity.Value

/-! The assumptions on `encoding/json` can be met: a printer of compact JSON text
and a parser that reads it back. Strings are escaped as far as the parser needs
it and whole numbers are written in decimal, as the library writes them; other
doubles are written by their bits, so the text differs from the library's there. -/

namespace Gosocketio.NonVacuity

open Strconv

def escape (c : UInt8) : Bytes := if c = 34 ∨ c = 92 then [92, c] else [c]

def printStr (s : Bytes) : Bytes := 34 :: (s.flatMap escape ++ [34])

def isSmallNat (x : Float64) : Bool := x.toInt.toNat < 2 ^ 53 && x = Float64.ofNat x.toInt.toNat

def printNumber (x : Float64) : Bytes :=
  if isSmallNat x then formatNat x.toInt.toNat else 45 :: formatNat x.toNat

mutual
def print : Value → Bytes
  | .bool true => [116, 114, 117, 101]
  | .bool false => [102, 97, 108, 115, 101]
  | .number x => printNumber x
  | .str s => printStr s
  | .arr xs => 91 :: printElems true xs
  | .obj kvs => 123 :: printMembers true kvs
  | _ => [110, 117, 108, 108]

def printElems (first : Bool) : List Value → Bytes
  | [] => [93]
  | v :: vs => (if first then [] else [44]) ++ print v ++ printElems false vs

def printMembers (first : Bool) : List (Bytes × Value) → Bytes
  | [] => [125]
  | (k, v) :: kvs =>
    (if first then [] else [44]) ++ printStr k ++ [58] ++ print v ++ printMembers false kvs
end

/-- The rest of a string behind its opening quote, or behind a backslash. -/
def parseStr (escaped : Bool) : Bytes → Option (Bytes × Bytes)
  | [] => none
  | c :: rest =>
    if escaped then (parseStr false rest).map fun r => (c :: r.1, r.2)
    else if c = 34 then some ([], rest)
    else if c = 92 then parseStr true rest
    else (parseStr false rest).map fun r => (c :: r.1, r.2)

def parseNumber (b : Bytes) : Value × Bytes := if b.head? = some 45 then
    (.number (BitVec.ofNat 64 (natOfDigits (b.tail.takeWhile isDigit))), b.tail.dropWhile isDigit)
  else (.number (Float64.ofNat (natOfDigits (b.takeWhile isDigit))), b.dropWhile isDigit)

def dropComma (first : Bool) (b : Bytes) : Bytes := if first then b else b.drop 1

mutual
def parseValue : ℕ → Bytes → Option (Value × Bytes)
  | 0, _ => none
  | _ + 1, [] => none
  | fuel + 1, c :: rest =>
    if c = 110 then some (.null, rest.drop 3)
    else if c = 116 then some (.bool true, rest.drop 3)
    else if c = 102 then some (.bool false, rest.drop 4)
    else if c = 34 then (parseStr false rest).map fun r => (.str r.1, r.2)
    else if c = 91 then (parseElems fuel true rest).map fun r => (.arr r.1, r.2)
    else if c = 123 then (parseMembers fuel true rest).map fun r => (.obj r.1, r.2)
    else some (parseNumber (c :: rest))

def parseElems : ℕ → Bool → Bytes → Option (List Value × Bytes)
  | 0, _, _ => none
  | fuel + 1, first, b =>
    if b.head? = some 93 then some ([], b.drop 1)
    else
      match parseValue fuel (dropComma first b) with
      | none => none
      | some (v, b) => (parseElems fuel false b).map fun r => (v :: r.1, r.2)

def parseMembers : ℕ → Bool → Bytes → Option (List (Bytes × Value) × Bytes)
  | 0, _, _ => none
  | fuel + 1, first, b =>
    if b.head? = some 125 then some ([], b.drop 1)
    else
      match parseStr false ((dropComma first b).drop 1) with
      | none => none
      | some (k, b) =>
        match parseValue fuel (b.drop 1) with
        | none => none
        | some (v, b) => (parseMembers fuel false b).map fun r => ((k, v) :: r.1, r.2)
end

theorem parseStr_escape (s rest : Bytes) :
    parseStr false (s.flatMap escape ++ 34 :: rest) = some (s, rest) := by
  induction s with
  | nil => rfl
  | cons c s ih =>
    rw [List.flatMap_cons, List.append_assoc, escape]
    split_ifs with hc
    · simp [parseStr, ih]
    · obtain ⟨h34, h92⟩ := not_or.mp hc
      simp [parseStr, ih, h34, h92]

theorem span_digits (n : ℕ) (rest : Bytes) (hrest : ∀ c, rest.head? = some c → isDigit c = false) :
    (formatNat n ++ rest).takeWhile isDigit = formatNat n ∧
      (formatNat n ++ rest).dropWhile isDigit = rest := by
  have hd := isDigit_of_mem_formatNat n
  constructor
  · rw [List.takeWhile_append_of_pos hd]
    cases rest with
    | nil => simp
    | cons c rest => simp [hrest c rfl]
  · rw [List.dropWhile_append_of_pos hd]
    cases rest with
    | nil => simp
    | cons c rest => simp [hrest c rfl]

theorem formatNat_head (n : ℕ) : ∃ c cs, formatNat n = c :: cs ∧ isDigit c = true := by
  cases hf : formatNat n with
  | nil => exact absurd hf (formatNat_ne_nil n)
  | cons c cs => exact ⟨c, cs, rfl, isDigit_of_mem_formatNat n c (by simp [hf])⟩

theorem parseNumber_print (x : Float64) (rest : Bytes)
    (hrest : ∀ c, rest.head? = some c → isDigit c = false) :
    parseNumber (printNumber x ++ rest) = (.number x, rest) := by
  unfold printNumber
  split_ifs with hx
  · obtain ⟨c, cs, hf, hc⟩ := formatNat_head x.toInt.toNat
    obtain ⟨ht, hd⟩ := span_digits x.toInt.toNat rest hrest
    have hne : (formatNat x.toInt.toNat ++ rest).head? ≠ some 45 := by
      rw [hf, List.cons_append, List.head?_cons]
      rintro ⟨rfl⟩
      exact absurd hc (by decide)
    rw [parseNumber, if_neg hne, ht, hd, natOfDigits_formatNat]
    simp only [isSmallNat, Bool.and_eq_true, decide_eq_true_eq] at hx
    rw [← hx.2]
  · obtain ⟨ht, hd⟩ := span_digits x.toNat rest hrest
    rw [List.cons_append, parseNumber, List.head?_cons, if_pos rfl, List.tail_cons, ht, hd,
      natOfDigits_formatNat, BitVec.ofNat_toNat, BitVec.setWidth_eq]

theorem print_head (v : Value) (hv : v.leaves.all Value.jsonLeaf = true) :
    ∃ c cs, print v = c :: cs ∧ kindOfByte c = some v.kind := by
  cases v with
  | bool b => cases b <;> exact ⟨_, _, rfl, rfl⟩
  | number x =>
    rw [print, printNumber]
    split_ifs
    · obtain ⟨c, cs, hf, hc⟩ := formatNat_head x.toInt.toNat
      refine ⟨c, cs, hf, ?_⟩
      have h1 : c ≠ 110 := by rintro rfl; exact absurd hc (by decide)
      have h2 : ¬ (c = 116 ∨ c = 102) := by rintro (rfl | rfl) <;> exact absurd hc (by decide)
      rw [kindOfByte, if_neg h1, if_neg h2, if_pos (Or.inr hc)]
      rfl
    · exact ⟨_, _, rfl, rfl⟩
  | str | arr | obj | null => exact ⟨_, _, rfl, rfl⟩
  | bytes | reader | placeholder => simp [Value.leaves, Value.jsonLeaf] at hv

theorem printElems_head (xs : List Value) (rest : Bytes) :
    ∀ c, (printElems false xs ++ rest).head? = some c → isDigit c = false := by
  intro c hc
  cases xs <;> simp [printElems] at hc <;> subst hc <;> decide

theorem printMembers_head (kvs : List (Bytes × Value)) (rest : Bytes) :
    ∀ c, (printMembers false kvs ++ rest).head? = some c → isDigit c = false := by
  intro c hc
  cases kvs <;> simp [printMembers] at hc <;> subst hc <;> decide

/-- What parsing a printed value means; the fuel is paid by the text consumed. -/
def ParsesBack (v : Value) : Prop :=
  ∀ fuel rest, (print v).length < fuel → (∀ c, rest.head? = some c → isDigit c = false) →
    parseValue fuel (print v ++ rest) = some (v, rest)

theorem parseElems_print (xs : List Value) (hxs : ∀ x ∈ xs, x.leaves.all Value.jsonLeaf = true)
    (ih : ∀ x ∈ xs, ParsesBack x) (first : Bool) (fuel : ℕ) (rest : Bytes)
    (hf : (printElems first xs).length < fuel) :
    parseElems fuel first (printElems first xs ++ rest) = some (xs, rest) := by
  induction xs generalizing first fuel with
  | nil =>
    obtain ⟨fuel, rfl⟩ : ∃ n, fuel = n + 1 := ⟨fuel - 1, by omega⟩
    simp [printElems, parseElems]
  | cons x xs ihl =>
    obtain ⟨fuel, rfl⟩ : ∃ n, fuel = n + 1 := ⟨fuel - 1, by omega⟩
    obtain ⟨c, cs, hp, hk⟩ := print_head x (hxs x (by simp))
    have hc : c ≠ 93 := by rintro rfl; exact absurd hk (by simp [kindOfByte, isDigit])
    simp only [printElems, List.length_append] at hf
    have hpos : 0 < (print x).length := by simp [hp]
    have hpos' : 0 < (printElems false xs).length := by cases xs <;> simp [printElems]
    have hx := ih x (by simp) fuel (printElems false xs ++ rest) (by omega)
      (printElems_head xs rest)
    have hrest := ihl (fun y hy => hxs y (by simp [hy])) (fun y hy => ih y (by simp [hy]))
      false fuel (by omega)
    have hnot : (printElems first (x :: xs) ++ rest).head? ≠ some 93 := by
      cases first <;> simp [printElems, hp, hc]
    have hdrop : dropComma first (printElems first (x :: xs) ++ rest) =
        print x ++ (printElems false xs ++ rest) := by
      cases first <;> simp [printElems, dropComma]
    rw [parseElems, if_neg hnot, hdrop, hx]
    simp [hrest]

theorem parseMembers_print (kvs : List (Bytes × Value))
    (ih : ∀ kv ∈ kvs, ParsesBack kv.2) (first : Bool) (fuel : ℕ) (rest : Bytes)
    (hf : (printMembers first kvs).length < fuel) :
    parseMembers fuel first (printMembers first kvs ++ rest) = some (kvs, rest) := by
  induction kvs generalizing first fuel with
  | nil =>
    obtain ⟨fuel, rfl⟩ : ∃ n, fuel = n + 1 := ⟨fuel - 1, by omega⟩
    simp [printMembers, parseMembers]
  | cons kv kvs ihl =>
    obtain ⟨k, v⟩ := kv
    obtain ⟨fuel, rfl⟩ : ∃ n, fuel = n + 1 := ⟨fuel - 1, by omega⟩
    simp only [printMembers, List.length_append, List.length_singleton] at hf
    have hv := ih (k, v) (by simp) fuel (printMembers false kvs ++ rest) (by simp only; omega)
      (printMembers_head kvs rest)
    have hrest := ihl (fun y hy => ih y (by simp [hy])) false fuel (by omega)
    have hnot : (printMembers first ((k, v) :: kvs) ++ rest).head? ≠ some 125 := by
      cases first <;> simp [printMembers, printStr]
    have hdrop : (dropComma first (printMembers first ((k, v) :: kvs) ++ rest)).drop 1 =
        k.flatMap escape ++ 34 :: (58 :: (print v ++ (printMembers false kvs ++ rest))) := by
      cases first <;> simp [printMembers, dropComma, printStr]
    rw [parseMembers, if_neg hnot, hdrop, parseStr_escape]
    simp only [List.drop_succ_cons, List.drop_zero]
    rw [hv]
    simp [hrest]

theorem parseValue_print (v : Value) (hv : v.leaves.all Value.jsonLeaf = true) : ParsesBack v := by
  intro fuel rest hf hrest
  obtain ⟨fuel, rfl⟩ : ∃ n, fuel = n + 1 := ⟨fuel - 1, by omega⟩
  induction v generalizing fuel rest with
  | bytes | reader | placeholder => simp [Value.leaves, Value.jsonLeaf] at hv
  | null => simp [print, parseValue]
  | bool b => cases b <;> simp [print, parseValue]
  | number x =>
    obtain ⟨c, cs, hp, hk⟩ := print_head (.number x) hv
    have hc : c ≠ 110 ∧ c ≠ 116 ∧ c ≠ 102 ∧ c ≠ 34 ∧ c ≠ 91 ∧ c ≠ 123 := by
      refine ⟨?_, ?_, ?_, ?_, ?_, ?_⟩ <;> rintro rfl <;>
        simp [kindOfByte, Value.kind, isDigit] at hk
    obtain ⟨h1, h2, h3, h4, h5, h6⟩ := hc
    have hn := parseNumber_print x rest hrest
    rw [print] at hp
    rw [print, hp, List.cons_append, parseValue, if_neg h1, if_neg h2, if_neg h3, if_neg h4,
      if_neg h5, if_neg h6, ← List.cons_append, ← hp, hn]
  | str s =>
    have hs := parseStr_escape s rest
    simp [print, printStr, parseValue, hs]
  | arr xs ih =>
    have hxs : ∀ x ∈ xs, x.leaves.all Value.jsonLeaf = true := by
      simpa [Value.leaves, List.all_flatMap] using hv
    have h := parseElems_print xs hxs ?_ true fuel rest (by simpa [print] using hf)
    · simp [print, parseValue, h]
    · intro x hx fuel rest hf hrest
      obtain ⟨fuel, rfl⟩ : ∃ n, fuel = n + 1 := ⟨fuel - 1, by omega⟩
      exact ih x hx (hxs x hx) rest hrest fuel hf
  | obj kvs ih =>
    have hkvs : ∀ kv ∈ kvs, kv.2.leaves.all Value.jsonLeaf = true := by
      simpa [Value.leaves, List.all_flatMap] using hv
    have h := parseMembers_print kvs ?_ true fuel rest (by simpa [print] using hf)
    · simp [print, parseValue, h]
    · intro kv hkv fuel rest hf hrest
      obtain ⟨fuel, rfl⟩ : ∃ n, fuel = n + 1 := ⟨fuel - 1, by omega⟩
      exact ih kv hkv (hkvs kv hkv) rest hrest fuel hf

def textJson : Json where
  marshal v := some (print v.image.sorted)
  unmarshal b := match parseValue (b.length + 1) b with
    | some (v, []) => some v
    | _ => none

theorem textJson_lawful : textJson.Lawful where
  roundTrip v hv := by
    have hleaves : v.leaves.all Value.jsonLeaf = true := by
      simp only [Value.isJson, Bool.and_eq_true] at hv
      exact hv.1
    have hparse := parseValue_print v hleaves ((print v).length + 1) [] (by omega) (by simp)
    refine ⟨print v, ?_, ?_⟩
    · simp only [textJson, Value.image_of_isJson v hv, Value.sorted_of_isJson v hv]
    · rw [List.append_nil] at hparse
      simp only [textJson, hparse]
  firstByte v b hv hb := by
    have hleaves : v.leaves.all Value.jsonLeaf = true := by
      simp only [Value.isJson, Bool.and_eq_true] at hv
      exact hv.1
    obtain ⟨c, cs, hp, hk⟩ := print_head v hleaves
    simp only [textJson, Value.image_of_isJson v hv, Value.sorted_of_isJson v hv,
      Option.some.injEq] at hb
    rw [← hb, hp]
    simpa using hk

theorem textJson_writesImage : textJson.WritesImage := by
  intro v _ hv
  simp only [textJson, Value.image_of_isJson _ hv, Value.sorted_of_isJson _ hv]

/-- The same, with a reader that refuses what is not listed as a JSON value. -/
def strictJson : Json where
  marshal := textJson.marshal
  unmarshal b := (textJson.unmarshal b).filter Value.isJson

theorem strictJson_sound : strictJson.Sound := by
  intro text v h
  exact (Option.filter_eq_some_iff.mp h).2

theorem strictJson_lawful : strictJson.Lawful where
  roundTrip v hv := by
    obtain ⟨b, hb, hu⟩ := textJson_lawful.roundTrip v hv
    exact ⟨b, hb, Option.filter_eq_some_iff.mpr ⟨hu, hv⟩⟩
  firstByte := textJson_lawful.firstByte

theorem strictJson_writesImage : strictJson.WritesImage := textJson_writesImage

theorem strictJson_stable : strictJson.Stable where
  roundTrip text v h := strictJson_lawful.roundTrip v (strictJson_sound text v h)
  firstByte text v b h hb := strictJson_lawful.firstByte v b (strictJson_sound text v h) hb

end Gosocketio.NonVacuity
