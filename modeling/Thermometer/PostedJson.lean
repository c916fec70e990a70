import Thermometer.Hexadecimal
import Thermometer.JsonDecoder
import Thermometer.ToJson
import Mathlib.Data.List.Forall2

namespace Thermometer.PosterTask

open Json

variable (showFloat : Binary32 → List Char)

/-- `to_json` for readings of any number. -/
def listToJson (readings : List SensorReading) : List Char :=
  let json := ((Stream.empty.str "\x7b").str "\"sensor_readings\": ").str "["
  let json := readingsToJson showFloat json true readings
  ((json.str "]").str "\x7d").text

theorem toJson_eq (readings : SensorReadings) :
    toJson showFloat readings = listToJson showFloat readings.readings.toList :=
  rfl

def readingText (reading : SensorReading) : List Char :=
  "\x7b".toList ++ ("\"temperature\": ".toList ++ (showFloat reading.temperature ++ (",".toList ++
    ("\"address\": \"".toList ++ (Nat.toDigits 16 reading.address.toNat ++
      ("\"".toList ++ "\x7d".toList))))))

/-- What a reading adds does not depend on the base it finds, and it leaves base ten. -/
theorem readingToJson_eq (json : Stream) (reading : SensorReading) :
    readingToJson showFloat json reading =
      { base := 10, text := json.text ++ readingText showFloat reading } := by
  simp only [readingToJson, readingText, Stream.str, Stream.float, Stream.hex, Stream.integer,
    Stream.dec, List.append_assoc]

def restText (readings : List SensorReading) : List Char :=
  readings.flatMap fun reading => ", ".toList ++ readingText showFloat reading

def readingsText : List SensorReading → List Char
  | [] => []
  | reading :: rest => readingText showFloat reading ++ restText showFloat rest

theorem readingsToJson_rest (json : Stream) (readings : List SensorReading) :
    (readingsToJson showFloat json false readings).text = json.text ++ restText showFloat readings := by
  induction readings generalizing json with
  | nil => exact (List.append_nil _).symm
  | cons reading rest ih =>
    rw [readingsToJson, ih, readingToJson_eq]
    simp only [Bool.false_eq_true, if_false, Stream.str, restText, List.flatMap_cons,
      List.append_assoc]

theorem readingsToJson_text (json : Stream) (readings : List SensorReading) :
    (readingsToJson showFloat json true readings).text =
      json.text ++ readingsText showFloat readings := by
  cases readings with
  | nil => exact (List.append_nil _).symm
  | cons reading rest =>
    rw [readingsToJson, readingsToJson_rest, readingToJson_eq, if_pos rfl, readingsText,
      List.append_assoc]

theorem listToJson_eq (readings : List SensorReading) :
    listToJson showFloat readings =
      '\x7b' :: ("\"sensor_readings\": [".toList ++
        (readingsText showFloat readings ++ [']', '\x7d'])) := by
  simp only [listToJson, Stream.str, readingsToJson_text, List.append_assoc]
  rfl

/-- What a receiver reads in an object of the array: the token of the temperature, and
the address that the hexadecimal digits stand for. -/
def readingOf : Value → Option (List Char × BitVec 64)
  | .object [(temperature, .number token), (address, .string digits)] =>
      if temperature = "temperature".toList ∧ address = "address".toList then
        (Hexadecimal.decode digits).bind fun n =>
          if n < 2 ^ 64 then some (token, BitVec.ofNat 64 n) else none
      else none
  | _ => none

def readingsOf : Value → Option (List (List Char × BitVec 64))
  | .object [(name, .array items)] =>
      if name = "sensor_readings".toList then items.mapM readingOf else none
  | _ => none

/-- The object that a reading is written as. -/
def tree (reading : SensorReading) : Value :=
  .object [("temperature".toList, .number (showFloat reading.temperature)),
    ("address".toList, .string (Nat.toDigits 16 reading.address.toNat))]

theorem chars_of_plain {s : List Char} (h : s.all isPlain = true) : Chars s := by
  induction s with
  | nil => exact .nil
  | cons c s ih =>
    rw [List.all_cons, Bool.and_eq_true] at h
    exact .plain h.1 (ih h.2)

theorem chars_toDigits (n : Nat) : Chars (Nat.toDigits 16 n) :=
  chars_of_plain (Hexadecimal.all_toDigits (by decide) n)

variable {showFloat}

theorem member_reads {R : Value → List Char → List Char → Prop} {name : List Char} {v : Value}
    {cs t : List Char} (hname : name.all isPlain = true) (h : R v cs t) :
    Member R (name, v) ('"' :: (name ++ '"' :: ':' :: ' ' :: cs)) t :=
  ⟨_, _, cs, ⟨chars_of_plain hname, rfl⟩, Spans.refl _ _, (Spans.refl _ cs).cons rfl, h⟩

theorem readingText_reads {reading : SensorReading}
    (h : isNumber (showFloat reading.temperature) = true) (t : List Char) :
    Reads 2 (tree showFloat reading) (readingText showFloat reading ++ t) t := by
  have htext : readingText showFloat reading ++ t =
      '\x7b' :: '"' :: ("temperature".toList ++ '"' :: ':' :: ' ' ::
        (showFloat reading.temperature ++ ',' :: '"' :: ("address".toList ++ '"' :: ':' :: ' ' ::
          '"' :: (Nat.toDigits 16 reading.address.toNat ++ '"' :: '\x7d' :: t)))) := by
    simp [readingText]
  have haddress : Reads 1 (.string (Nat.toDigits 16 reading.address.toNat))
      ('"' :: (Nat.toDigits 16 reading.address.toNat ++ '"' :: '\x7d' :: t)) ('\x7d' :: t) :=
    ⟨chars_toDigits _, rfl⟩
  have htemperature : ∀ rest, Reads 1 (.number (showFloat reading.temperature))
      (showFloat reading.temperature ++ rest) rest := fun _ => ⟨h, rfl⟩
  rw [htext]
  refine ⟨_, rfl, .inr (.more (Spans.refl _ _) (member_reads (by decide) (htemperature _))
    (Spans.refl _ _) (.last (Spans.refl _ _) (member_reads (by decide) haddress) (Spans.refl _ _)))⟩

/-- The objects of the readings one after the other, up to the end of the array. -/
theorem readings_read {reading : SensorReading} {rest : List SensorReading}
    (h : ∀ r ∈ reading :: rest, isNumber (showFloat r.temperature) = true) {cs t : List Char}
    (hcs : Space cs (readingText showFloat reading ++ (restText showFloat rest ++ ']' :: t))) :
    Items (Reads 2) ']' ((reading :: rest).map (tree showFloat)) cs t := by
  induction rest generalizing reading cs with
  | nil =>
    have hreading : isNumber (showFloat reading.temperature) = true := h reading (by simp)
    exact .last hcs (readingText_reads hreading _) (Spans.refl _ _)
  | cons next rest ih =>
    obtain ⟨hreading, hrest⟩ := List.forall_mem_cons.mp h
    have htext : restText showFloat (next :: rest) ++ ']' :: t =
        ',' :: ' ' :: (readingText showFloat next ++ (restText showFloat rest ++ ']' :: t)) := by
      simp [restText]
    rw [htext] at hcs
    exact .more hcs (readingText_reads hreading _) (Spans.refl _ _)
      (ih hrest ((Spans.refl _ _).cons rfl))

theorem listToJson_text {readings : List SensorReading}
    (h : ∀ r ∈ readings, isNumber (showFloat r.temperature) = true) :
    Text (.object [("sensor_readings".toList, .array (readings.map (tree showFloat)))])
      (listToJson showFloat readings) := by
  have harray : Reads 3 (.array (readings.map (tree showFloat)))
      ('[' :: (readingsText showFloat readings ++ [']', '\x7d'])) ['\x7d'] := by
    refine ⟨_, rfl, ?_⟩
    cases readings with
    | nil => exact .inl ⟨rfl, Spans.refl _ _⟩
    | cons reading rest =>
      refine .inr (readings_read h ?_)
      rw [readingsText, List.append_assoc]
      exact Spans.refl _ _
  have htext : listToJson showFloat readings = '\x7b' :: '"' :: ("sensor_readings".toList ++
      '"' :: ':' :: ' ' :: '[' :: (readingsText showFloat readings ++ [']', '\x7d'])) := by
    rw [listToJson_eq]
    rfl
  rw [htext]
  exact ⟨4, _, [], Spans.refl _ _, ⟨_, rfl, .inr (.last (Spans.refl _ _)
    (member_reads (by decide) harray) (Spans.refl _ _))⟩, Spans.refl _ _⟩

theorem readingOf_tree (reading : SensorReading) :
    readingOf (tree showFloat reading) =
      some (showFloat reading.temperature, reading.address) := by
  simp only [tree, readingOf, Hexadecimal.decode_toDigits, and_self, if_true, Option.bind_some,
    reading.address.isLt, BitVec.ofNat_toNat, BitVec.setWidth_eq]

theorem mapM_readingOf (readings : List SensorReading) :
    (readings.map (tree showFloat)).mapM readingOf =
      some (readings.map fun r => (showFloat r.temperature, r.address)) := by
  induction readings with
  | nil => rfl
  | cons reading rest ih =>
    rw [List.map_cons, List.mapM_cons, readingOf_tree, ih]
    rfl

theorem decode_listToJson {readings : List SensorReading}
    (h : ∀ r ∈ readings, isNumber (showFloat r.temperature) = true) :
    (Json.decode (listToJson showFloat readings)).bind readingsOf =
      some (readings.map fun r => (showFloat r.temperature, r.address)) := by
  rw [decode_of_text (listToJson_text h), Option.bind_some, readingsOf, if_pos rfl, mapM_readingOf]

theorem addresses_of_listToJson_eq {readings readings' : List SensorReading}
    (h : ∀ r ∈ readings, isNumber (showFloat r.temperature) = true)
    (h' : ∀ r ∈ readings', isNumber (showFloat r.temperature) = true)
    (heq : listToJson showFloat readings' = listToJson showFloat readings) :
    readings'.map SensorReading.address = readings.map SensorReading.address := by
  have hdecode := decode_listToJson h'
  rw [heq, decode_listToJson h] at hdecode
  have hsnd := congrArg (List.map Prod.snd) (Option.some.inj hdecode)
  simpa only [List.map_map, Function.comp_def] using hsnd.symm

/-- The object has the temperature's token and the digits of the address. -/
def Encodes (showFloat : Binary32 → List Char) (v : Value) (reading : SensorReading) : Prop :=
  ∃ digits, v = .object [("temperature".toList, .number (showFloat reading.temperature)),
      ("address".toList, .string digits)] ∧
    digits.all Hexadecimal.isDigit = true ∧
      Hexadecimal.decode digits = some reading.address.toNat

theorem encodes_tree (reading : SensorReading) :
    Encodes showFloat (tree showFloat reading) reading :=
  ⟨_, rfl, Hexadecimal.all_toDigits (by decide) _, Hexadecimal.decode_toDigits _⟩

/-- The text for the readings is a JSON object with one object for each of them, it
decodes to the readings, and readings of other addresses have another text. -/
structure Decodes (showFloat : Binary32 → List Char) (readings : List SensorReading) : Prop where
  wellFormed : ∃ items,
    Text (.object [("sensor_readings".toList, .array items)]) (listToJson showFloat readings) ∧
      List.Forall₂ (Encodes showFloat) items readings
  decode : (Json.decode (listToJson showFloat readings)).bind readingsOf =
    some (readings.map fun r => (showFloat r.temperature, r.address))
  differs : ∀ readings' : List SensorReading, (∀ r ∈ readings', r.temperature.IsFinite) →
    (readings'.length ≠ readings.length ∨
      readings'.map SensorReading.address ≠ readings.map SensorReading.address) →
    listToJson showFloat readings' ≠ listToJson showFloat readings

/-- The posted text decodes back to the readings. -/
theorem toJson_decodes (hfloat : ∀ x : Binary32, x.IsFinite → isNumber (showFloat x) = true)
    {readings : List SensorReading} (hfinite : ∀ r ∈ readings, r.temperature.IsFinite) :
    Decodes showFloat readings ∧
      ∀ r : SensorReadings, r.readings.toList = readings →
        toJson showFloat r = listToJson showFloat readings := by
  have hnumbers : ∀ r ∈ readings, isNumber (showFloat r.temperature) = true :=
    fun r hr => hfloat _ (hfinite r hr)
  refine ⟨⟨⟨_, listToJson_text hnumbers, ?_⟩, decode_listToJson hnumbers, ?_⟩, ?_⟩
  · rw [List.forall₂_map_left_iff, List.forall₂_same]
    exact fun r _ => encodes_tree r
  · intro readings' hfinite' hother heq
    have haddress := addresses_of_listToJson_eq hnumbers (fun r hr => hfloat _ (hfinite' r hr)) heq
    obtain hlength | hdiffer := hother
    · apply hlength
      simpa only [List.length_map] using congrArg List.length haddress
    · exact hdiffer haddress
  · rintro r rfl
    exact toJson_eq showFloat r

/-- What `operator<<` writes for 21.5 and for -3.25. -/
def shown (x : Binary32) : List Char :=
  if x = ⟨0x41AC0000⟩ then "21.5".toList
  else if x = ⟨0xC0500000⟩ then "-3.25".toList
  else "0".toList

def indoorsAndOut : List SensorReading :=
  [⟨⟨0x41AC0000⟩, 0x28FF641E8316037A⟩, ⟨⟨0xC0500000⟩, 0x28⟩]

theorem toJson_decodes_indoorsAndOut :
    Decodes shown indoorsAndOut ∧
      ∀ r : SensorReadings, r.readings.toList = indoorsAndOut →
        toJson shown r = listToJson shown indoorsAndOut := by
  refine toJson_decodes (fun x _ => ?_) (by decide)
  rw [shown]
  split
  · decide
  · split <;> decide

end Thermometer.PosterTask
