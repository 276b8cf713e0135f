import SerialContract.Proofs.Wire.Declared
import SerialContract.Wire.FrameBuffer

/-!
# What a message belongs to

The bytes of a message tell an exchange of the table and a direction, before any field is read: a line by the name
at its front, a packet by its third byte. What is read are the fields that this exchange declares for this
direction, and the name of the message tells the same exchange and direction again, even if the name of the exchange
itself ends like that of a message. Nothing is asked of the names or of the identifying bytes of the exchanges.
-/

namespace SerialContract

/-! ## Bytes -/

/-- The exchange and the direction that bytes tell: a line by the message name in front of its first parenthesis, a
packet by its third byte, whose high bit marks requests and whose other bits identify the exchange. -/
inductive ExchangeTable.Resolves (table : ExchangeTable) : Encoding → List UInt8 → Exchange → Direction → Prop where
  | text {bytes e direction rest} (named : table.named? e.name = some e)
      (unopened : '(' ∉ (e.messageName direction).toList)
      (front : ofAscii bytes = (e.messageName direction).toList ++ '(' :: rest) :
      table.Resolves .text bytes e direction
  | binary {low high byte payload e direction} (identified : table.identified? (byte &&& 0x7F) = some e)
      (marked : byte &&& 0x80 ≠ 0 ↔ direction = .request) :
      table.Resolves .binary (low :: high :: byte :: payload) e direction

theorem Direction.eq_of_request_iff {d d' : Direction} (h : d = .request ↔ d' = .request) : d = d' := by
  cases d <;> cases d' <;> simp_all

theorem Packet.directionOf_eq_request (byte : UInt8) : directionOf byte = .request ↔ byte &&& 0x80 ≠ 0 := by
  rw [directionOf]
  split
  · next hclear => exact ⟨fun hresponse => absurd hresponse (by decide), fun hset => absurd hclear hset⟩
  · next hset => exact ⟨fun _ => hset, fun _ => rfl⟩

namespace ExchangeTable

variable {table : ExchangeTable} {encoding : Encoding} {bytes : List UInt8}

theorem Resolves.mem {e : Exchange} {direction : Direction} (h : table.Resolves encoding bytes e direction) :
    e ∈ table.exchanges := by
  cases h with
  | text named _ _ => exact (mem_of_named? named).1
  | binary identified _ => exact (mem_of_identified? identified).1

/-- Bytes tell one exchange and one direction. -/
theorem Resolves.unique {a b : Exchange} {d d' : Direction} (h : table.Resolves encoding bytes a d)
    (h' : table.Resolves encoding bytes b d') : a = b ∧ d = d' := by
  cases h with
  | text hnamed hunopened hfront =>
      cases h' with
      | text hnamed' hunopened' hfront' =>
          -- both names end at the first parenthesis
          have hcut := congrArg (cutAt '(') (hfront.symm.trans hfront')
          rw [cutAt_append hunopened, cutAt_append hunopened', Option.some.injEq, Prod.mk.injEq,
            String.toList_inj] at hcut
          obtain ⟨hname, rfl⟩ := Exchange.messageName_inj.1 hcut.1
          rw [← hname, hnamed, Option.some.injEq] at hnamed'
          exact ⟨hnamed', rfl⟩
  | binary hidentified hmarked =>
      cases h' with
      | binary hidentified' hmarked' =>
          rw [hidentified, Option.some.injEq] at hidentified'
          exact ⟨hidentified', Direction.eq_of_request_iff (hmarked.symm.trans hmarked')⟩

end ExchangeTable

/-! ## Messages that are read -/

section Decode

variable {table : ExchangeTable} {bytes : List UInt8} {m : Message}

theorem TextLine.resolves_of_decode (h : decode table bytes = .ok m) :
    ∃ e direction, table.Resolves .text bytes e direction ∧ Message.Carries e direction m := by
  obtain ⟨_, body, message, list, fields, values, hdrop, hsplit, hfields, hread, hcomplete⟩ := decode_eq_ok.1 h
  obtain ⟨e, direction, hnamed, hmessage, rfl⟩ := fieldsOf?_eq_some.1 hfields
  obtain ⟨_, ending, _, hline⟩ := dropTerminator_eq_ok hdrop
  obtain ⟨hbody, hopening, _⟩ := split_eq_ok hsplit
  obtain rfl : message = (e.messageName direction).toList := by rw [← hmessage, String.toList_ofList]
  have hfront : ofAscii bytes = (e.messageName direction).toList ++ '(' :: (list ++ [closing] ++ ending) := by
    rw [hline, hbody, List.append_assoc, List.cons_append, opening]
  exact ⟨e, direction, .text hnamed hopening hfront,
    Message.carries_of_complete hmessage (declared_of_readArguments Message.declared_empty hread) hcomplete⟩

theorem Packet.resolves_of_decode (h : decode table bytes = .ok m) :
    ∃ e direction, table.Resolves .binary bytes e direction ∧ Message.Carries e direction m := by
  obtain ⟨low, high, byte, payload, e, values, rfl, _, hidentified, hread, hcomplete⟩ := decode_eq_ok h
  exact ⟨e, directionOf byte, .binary hidentified (directionOf_eq_request byte).symm,
    Message.carries_of_complete rfl (declared_of_readValues (fun _ => id) Message.declared_empty hread) hcomplete⟩

/-- What is read in either encoding is a message of the exchange and in the direction that its bytes tell. -/
theorem Encoding.resolves_of_decode {encoding : Encoding} (h : encoding.decode table bytes = .ok m) :
    ∃ e direction, table.Resolves encoding bytes e direction ∧ Message.Carries e direction m := by
  cases encoding with
  | text => exact TextLine.resolves_of_decode h
  | binary => exact Packet.resolves_of_decode h

theorem Encoding.carries_of_decode {encoding : Encoding} (h : encoding.decode table bytes = .ok m) :
    ∃ e ∈ table.exchanges, ∃ direction, Message.Carries e direction m := by
  obtain ⟨e, direction, hresolves, hcarries⟩ := Encoding.resolves_of_decode h
  exact ⟨e, hresolves.mem, direction, hcarries⟩

end Decode

/-! ## Names -/

/-- The name of a message is taken apart into the name of its exchange and its direction, and every name that is taken
apart is the message name of its parts, whatever the exchange is called. So exchanges with different names never share
a message name, nor do the two directions, and what is read has the name of the exchange and of the direction that its
bytes tell. -/
theorem messageName_unambiguous :
    (∀ (e : Exchange) (direction : Direction),
      splitMessageName (e.messageName direction) = some (e.name, direction)) ∧
    (∀ (message name : String) (direction : Direction), splitMessageName message = some (name, direction) →
      ∀ e : Exchange, e.name = name → e.messageName direction = message) ∧
    (∀ (a b : Exchange) (d d' : Direction), (a.name, d) ≠ (b.name, d') → a.messageName d ≠ b.messageName d') ∧
    ∀ (encoding : Encoding) (table : ExchangeTable) (bytes : List UInt8) (m : Message),
      encoding.decode table bytes = .ok m →
        (∃ e direction, table.Resolves encoding bytes e direction) ∧
        ∀ e direction, table.Resolves encoding bytes e direction →
          m.exchangeName = e.name ∧ (m.isRequest = true ↔ direction = .request) ∧ Message.Carries e direction m := by
  refine ⟨fun e direction => e.splitMessageName_messageName direction,
    fun _ _ _ hsplit _ he => Exchange.messageName_of_splitMessageName hsplit he, fun a b d d' hne hsame => ?_,
    fun encoding table bytes m hdecode => ?_⟩
  · obtain ⟨hname, rfl⟩ := Exchange.messageName_inj.1 hsame
    exact hne (by rw [hname])
  · obtain ⟨e, direction, hresolves, hcarries⟩ := Encoding.resolves_of_decode hdecode
    refine ⟨⟨e, direction, hresolves⟩, fun e' direction' hresolves' => ?_⟩
    obtain ⟨rfl, rfl⟩ := hresolves'.unique hresolves
    refine ⟨m.exchangeName_of_name hcarries.named, ?_, hcarries⟩
    rw [m.isRequest_of_name hcarries.named, decide_eq_true_iff]

namespace Bench

def unnamed : Exchange := ⟨"", some [7], [], []⟩

/-- Its name is the end of the names of requests. -/
def suffix : Exchange := ⟨"Request", some [8], [], [⟨"Response", .integer⟩]⟩

end Bench

theorem messageName_unambiguous_suffixes :
    (splitMessageName "RequestResponse" = some (Bench.suffix.name, .response) ∧
      Bench.suffix.messageName .response = "RequestResponse") ∧
    ((Bench.suffix.name, Direction.response) ≠ (Bench.unnamed.name, .request) ∧
      Bench.suffix.messageName .response ≠ Bench.unnamed.messageName .request) ∧
    Encoding.binary.decode (.ofList [Bench.unnamed, Bench.suffix]) [0, 0, 0x87] = .ok ⟨"Request", .empty⟩ ∧
    ∃ e direction, (ExchangeTable.ofList [Bench.unnamed, Bench.suffix]).Resolves .binary [0, 0, 0x87] e direction ∧
      e.name = "" ∧ direction = .request := by
  obtain ⟨_, hnamed, hapart, hread⟩ := messageName_unambiguous
  have hsplit : splitMessageName "RequestResponse" = some (Bench.suffix.name, .response) := by decide
  have hne : (Bench.suffix.name, Direction.response) ≠ (Bench.unnamed.name, .request) := by decide
  have hdecode : Encoding.binary.decode (.ofList [Bench.unnamed, Bench.suffix]) [0, 0, 0x87] =
      .ok ⟨"Request", .empty⟩ := by decide +kernel
  obtain ⟨⟨e, direction, hresolves⟩, hagrees⟩ := hread _ _ _ _ hdecode
  obtain ⟨hname, hrequest, _⟩ := hagrees e direction hresolves
  exact ⟨⟨hsplit, hnamed _ _ _ hsplit Bench.suffix rfl⟩, ⟨hne, hapart _ _ _ _ hne⟩, hdecode, e, direction, hresolves,
    hname.symm.trans (by decide), hrequest.1 (by decide)⟩

end SerialContract
