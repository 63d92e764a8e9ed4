import HttpServer.Core.FieldValues
import HttpServer.Framing.Fields
import HttpServer.Library.Messages
import HttpServer.Server.Dispatch
import HttpServer.Server.Forwarding
import HttpServer.StaticPlan.Splitting

set_option autoImplicit false

namespace HttpServer.Serving

open Unicode Text HttpServer.Core
open StaticPlan (OneLine)

def clientField (entry : Str × Str) : Messages.Field := (encode entry.1, encode entry.2)

structure FieldEntry (entry : Str × Str) : Prop where
  name : RequestHeaders.token entry.1 = true
  value : OneLine entry.2

theorem encode_crlf (text rest : Str) :
    encode (text ++ (str "\r\n" ++ rest)) = Messages.closed (encode text) ++ encode rest :=
  Server.encode_line text rest

theorem encode_field (entry : Str × Str) :
    encode (entry.1 ++ str ": " ++ entry.2) =
      (clientField entry).1 ++ 0x3A :: 0x20 :: (clientField entry).2 := by
  have colon : str ": " ++ entry.2 = unit ':' :: unit ' ' :: entry.2 := rfl
  have space := encode_append_ascii [] (unit ' ') entry.2 (by decide)
  rw [List.nil_append] at space
  rw [List.append_assoc, colon, encode_append_ascii _ _ _ (by decide), space]
  rfl

theorem encode_fields (entries : List (Str × Str)) (rest : Str) :
    encode (entries.flatMap (fun entry => entry.1 ++ str ": " ++ entry.2 ++ str "\r\n") ++ rest) =
      (entries.map clientField).flatMap Messages.fieldLine ++ encode rest := by
  induction entries with
  | nil => rfl
  | cons entry entries ih =>
    have line := encode_crlf (entry.1 ++ str ": " ++ entry.2)
      (entries.flatMap (fun entry => entry.1 ++ str ": " ++ entry.2 ++ str "\r\n") ++ rest)
    rw [encode_field] at line
    rw [List.flatMap_cons, List.append_assoc, List.append_assoc, line, ih, List.map_cons,
      List.flatMap_cons, List.append_assoc]
    rfl

theorem encode_statusLine {status : Int32} {n : Nat} (known : status.toInt = n) (reason : Str) :
    encode (str "HTTP/1.1 " ++ ofInt status.toInt ++ str " " ++ reason) =
      Messages.statusLine n (encode reason) := by
  have number : ofInt status.toInt = Numerals.numeral 10 n := by
    rw [known]
    exact if_neg (by omega)
  have version : ∀ u ∈ str "HTTP/1.1 " ++ Numerals.numeral 10 n, u.toNat < 0x80 := by
    intro u member
    rcases List.mem_append.mp member with literal | digit
    · have all : ((str "HTTP/1.1 ").all fun u => u.toNat < 0x80) = true := by decide
      simpa using List.all_eq_true.mp all u literal
    · exact Messages.numeral_ascii (by decide) (by decide) n u digit
  have space : str " " ++ reason = unit ' ' :: reason := rfl
  rw [number, List.append_assoc _ (str " "), space, encode_append_ascii _ _ _ (by decide),
    Messages.encode_narrow version, Messages.narrow, List.map_append]
  rfl

-- The head that `send_response` writes, as lines of bytes.
theorem encode_headerText {status : Int32} {n : Nat} (known : status.toInt = n)
    (reasons : List (Int32 × Str)) (headers : Headers) :
    encode (headerText reasons status headers) =
      Messages.head n (encode (statusReason reasons status)) (headers.entries.map clientField) := by
  have line := encode_crlf (str "HTTP/1.1 " ++ ofInt status.toInt ++ str " " ++
    statusReason reasons status) (headers.entries.flatMap
      (fun entry => entry.1 ++ str ": " ++ entry.2 ++ str "\r\n") ++ str "\r\n")
  have last := encode_crlf [] []
  rw [encode_statusLine known, encode_fields] at line
  rw [List.nil_append, List.append_nil] at last
  rw [headerText, statusLine, List.append_assoc, List.append_assoc _ (str "\r\n")]
  rw [line, last, Messages.head, List.append_assoc]
  rfl

theorem token_ascii {name : Str} (token : RequestHeaders.token name = true) :
    ∀ u ∈ name, u.toNat < 0x80 := by
  intro u member
  have range := tokenChar_range (((token_iff name).mp token).2 u member)
  omega

theorem tokenByte_narrow : ∀ n < 0x80,
    Messages.tokenByte (UInt8.ofNat n) = RequestHeaders.tokenChar n := by
  decide +kernel

theorem lower_narrow : ∀ n < 0x80,
    Messages.lower (UInt8.ofNat n) = UInt8.ofNat (lowerUnit (UInt16.ofNat n)).toNat := by
  decide +kernel

theorem FieldEntry.text {entry : Str × Str} (field : FieldEntry entry) :
    Messages.FieldText (clientField entry) := by
  obtain ⟨notEmpty, chars⟩ := (token_iff entry.1).mp field.name
  have small := token_ascii field.name
  have name : (clientField entry).1 = Messages.narrow entry.1 := Messages.encode_narrow small
  refine ⟨?_, ?_, ?_, ?_⟩
  · rw [name, Messages.narrow, ne_eq, List.map_eq_nil_iff]
    exact notEmpty
  · rw [name, Messages.narrow, List.all_map, List.all_eq_true]
    intro u member
    exact (tokenByte_narrow u.toNat (small u member)).trans (chars u member)
  · exact mt (mem_encode_ascii entry.2 (unit '\r') (by decide)).mp field.value.1
  · exact mt (mem_encode_ascii entry.2 (unit '\n') (by decide)).mp field.value.2

theorem lower_encode {name : Str} (small : ∀ u ∈ name, u.toNat < 0x80) :
    (encode name).map Messages.lower = Messages.narrow (toLower name) := by
  rw [Messages.encode_narrow small, Messages.narrow, Messages.narrow, toLower, List.map_map,
    List.map_map]
  refine List.map_congr_left fun u member => ?_
  have low := lower_narrow u.toNat (small u member)
  rwa [UInt16.ofNat_toNat] at low

theorem toLower_small {name : Str} (small : ∀ u ∈ name, u.toNat < 0x80) :
    ∀ u ∈ toLower name, u.toNat < 0x80 := by
  intro u member
  obtain ⟨v, inside, rfl⟩ := List.mem_map.mp member
  have bound := small v inside
  rw [lowerUnit_toNat]
  split_ifs <;> omega

-- A client that looks for a name in any letter case finds the headers of that name.
theorem clientValues {headers : Headers} (tokens : ∀ entry ∈ headers.entries,
      RequestHeaders.token entry.1 = true) {name : Str} (small : ∀ u ∈ name, u.toNat < 0x80) :
    Messages.values (encode name) ((headers.entries.map clientField).map Messages.Field.trimmed) =
      (fieldValues headers name).map fun value => Messages.trimmed (encode value) := by
  have same : ∀ entry ∈ headers.entries,
      ((encode entry.1).map Messages.lower == (encode name).map Messages.lower) =
        (toLower entry.1 == toLower name) := by
    intro entry member
    have ascii := token_ascii (tokens entry member)
    rw [lower_encode ascii, lower_encode small, Bool.eq_iff_iff, beq_iff_eq, beq_iff_eq]
    constructor
    · intro narrow
      rw [← Messages.units_narrow (toLower_small ascii), narrow,
        Messages.units_narrow (toLower_small small)]
    · exact congrArg Messages.narrow
  rw [Messages.values, fieldValues, List.filter_map, List.filter_map, List.map_map, List.map_map,
    List.map_map]
  have filtered : headers.entries.filter (((fun f : Messages.Field =>
      f.1.map Messages.lower == (encode name).map Messages.lower) ∘ Messages.Field.trimmed) ∘
        clientField) = headers.entries.filter fun entry => toLower entry.1 == toLower name :=
    List.filter_congr same
  rw [filtered]
  rfl

end HttpServer.Serving
