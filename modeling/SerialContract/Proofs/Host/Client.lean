import SerialContract.Proofs.Host.Expression
import SerialContract.Proofs.Host.Literal
import SerialContract.Proofs.Source.Generation

/-!
# What the host's client says about the contract

The speed of the line, the identifier of the device, the encoding and the exchanges stand one behind another in the
host's client. Each is spelt so that it ends by itself, and so the client determines them; the identifier is
read back from the string literal that it stands in.
-/

namespace SerialContract.Host

/-! ## The filled template -/

/-- The lines in front of that with the speed of the line. -/
def start : List String := [
  "//! Host client for a hardsync contract.",
  "//!",
  "//! Generated by hardsync. Regenerate from the contract instead of editing.",
  "",
  "#![allow(unused_imports)]",
  "",
  "use hardsync_client::\x7b",
  "    Client, ClientResult, EncodingKind, Exchange, FieldSet, FieldValue, FieldValues, SemanticType,",
  "\x7d;",
  "use std::io::\x7bRead, Write\x7d;",
  "",
  "/// Baud rate declared by the contract."]

/-- The lines in front of that with the identifier of the device. -/
def deviceStart : List String := [
  "",
  "/// Device identifier declared by the contract; empty when unknown."]

/-- The lines in front of that with the encoding. -/
def encodingStart : List String := [
  "",
  "/// Wire encoding declared by the contract."]

/-- The lines in front of the exchanges. -/
def exchangesStart : List String := [
  "",
  "/// Every exchange declared by the contract.",
  "pub fn exchanges() -> Vec<Exchange> \x7b",
  "    vec!["]

/-- What stands in front of the speed of the line. -/
def ratePrefix : String := "pub const BAUD_RATE: u32 = "

/-- What stands in front of the identifier of the device. -/
def devicePrefix : String := "pub const DEVICE_IDENTIFIER: &str = \""

/-- What stands in front of the encoding. -/
def encodingPrefix : String := "pub const ENCODING: EncodingKind = EncodingKind::"

/-- The lines with placeholders, in the template. -/
def rateTemplate : String := "pub const BAUD_RATE: u32 = \x7b\x7bbaud_rate\x7d\x7d;"

def deviceTemplate : String := "pub const DEVICE_IDENTIFIER: &str = \"\x7b\x7bidentifier\x7d\x7d\";"

def encodingTemplate : String := "pub const ENCODING: EncodingKind = EncodingKind::\x7b\x7bencoding\x7d\x7d;"

def exchangesTemplate : String := "\x7b\x7bexchange_constructors\x7d\x7d    ]"

def structuresTemplate : String := "\x7b\x7bresponse_structs\x7d\x7d"

def methodsTemplate : String := "\x7b\x7brequest_methods\x7d\x7d\x7d"

/-- The structure of the client. -/
def clientStructure : List String := [
  "/// Typed access to a device running the generated firmware.",
  "pub struct DeviceClient<T: Read + Write> \x7b",
  "    client: Client<T>,",
  "\x7d"]

/-- The methods of the client that are there for every contract. -/
def clientMethods : List String := [
  "",
  "impl<T: Read + Write> DeviceClient<T> \x7b",
  "    /// Wrap an open transport.",
  "    pub fn new(transport: T) -> Self \x7b",
  "        DeviceClient \x7b",
  "            client: Client::new(transport, ENCODING, exchanges()),",
  "        \x7d",
  "    \x7d",
  "",
  "    /// Adopt a connected client, such as the one discovery returns, keeping",
  "    /// any bytes it has already read.",
  "    pub fn from_client(client: Client<T>) -> Self \x7b",
  "        DeviceClient \x7b",
  "            client: client.with_exchanges(ENCODING, exchanges()),",
  "        \x7d",
  "    \x7d",
  "",
  "    /// The underlying untyped client.",
  "    pub fn client(&mut self) -> &mut Client<T> \x7b",
  "        &mut self.client",
  "    \x7d",
  "",
  "    /// Check that the device is responding.",
  "    pub fn request_ping(&mut self) -> ClientResult<()> \x7b",
  "        self.client.ping()",
  "    \x7d"]

/-- The lines behind the exchanges, in the template. -/
def otherTemplates : List String :=
  "\x7d" :: structuresTemplate :: (clientStructure ++ clientMethods ++ [methodsTemplate])

theorem skeleton_eq : skeleton = lines ((start ++ [rateTemplate] ++ deviceStart ++ deviceTemplate ::
    (encodingStart ++ [encodingTemplate] ++ exchangesStart ++ [exchangesTemplate])) ++ otherTemplates) :=
  rfl

section Plain

open Template (PlainLine)

theorem plain_start : ∀ text ∈ start, PlainLine text := by
  simp only [start, List.forall_mem_cons]
  refine ⟨?_, ?_, ?_, ?_, ?_, ?_, ?_, ?_, ?_, ?_, ?_, ?_, List.forall_mem_nil _⟩
  all_goals exact .of_chars rfl (by decide) (by decide)

theorem plain_deviceStart : ∀ text ∈ deviceStart, PlainLine text := by
  simp only [deviceStart, List.forall_mem_cons]
  exact ⟨.of_chars rfl (by decide) (by decide), .of_chars rfl (by decide) (by decide), List.forall_mem_nil _⟩

theorem plain_encodingStart : ∀ text ∈ encodingStart, PlainLine text := by
  simp only [encodingStart, List.forall_mem_cons]
  exact ⟨.of_chars rfl (by decide) (by decide), .of_chars rfl (by decide) (by decide), List.forall_mem_nil _⟩

theorem plain_exchangesStart : ∀ text ∈ exchangesStart, PlainLine text := by
  simp only [exchangesStart, List.forall_mem_cons]
  refine ⟨?_, ?_, ?_, ?_, List.forall_mem_nil _⟩
  all_goals exact .of_chars rfl (by decide) (by decide)

end Plain

section Source

variable (c : Contract)

theorem placeholders_nodup : placeholders.Nodup := by decide +kernel

theorem filledLine_rate : Template.filledLine (replacements c) rateTemplate =
    ratePrefix ++ c.channel.baudRate.text ++ ";" := by
  have hparts : Template.parts rateTemplate =
      ratePrefix.toList.map .plain ++ .placeholder "baud_rate".toList :: ";".toList.map .plain := by
    rw [rateTemplate, ratePrefix, Template.parts, String.toList_ofList, String.toList_ofList, String.toList_ofList,
      String.toList_ofList]
    decide
  have hget : (replacements c).get? "baud_rate" = some c.channel.baudRate.text :=
    NameMap.get?_ofList_of_mem placeholders_nodup (by simp)
  exact Template.filledLine_placeholder hparts hget

theorem filledLine_device : Template.filledLine (replacements c) deviceTemplate =
    devicePrefix ++ quoted c.channel.identifier ++ "\";" := by
  have hparts : Template.parts deviceTemplate =
      devicePrefix.toList.map .plain ++ .placeholder "identifier".toList :: "\";".toList.map .plain := by
    rw [deviceTemplate, devicePrefix, Template.parts, String.toList_ofList, String.toList_ofList, String.toList_ofList,
      String.toList_ofList]
    decide
  have hget : (replacements c).get? "identifier" = some (quoted c.channel.identifier) :=
    NameMap.get?_ofList_of_mem placeholders_nodup (by simp)
  exact Template.filledLine_placeholder hparts hget

theorem filledLine_encoding : Template.filledLine (replacements c) encodingTemplate =
    encodingPrefix ++ encodingTag c.encoding ++ ";" := by
  have hparts : Template.parts encodingTemplate =
      encodingPrefix.toList.map .plain ++ .placeholder "encoding".toList :: ";".toList.map .plain := by
    rw [encodingTemplate, encodingPrefix, Template.parts, String.toList_ofList, String.toList_ofList,
      String.toList_ofList, String.toList_ofList]
    decide
  have hget : (replacements c).get? "encoding" = some (encodingTag c.encoding) :=
    NameMap.get?_ofList_of_mem placeholders_nodup (by simp)
  exact Template.filledLine_placeholder hparts hget

theorem filledLine_exchanges : Template.filledLine (replacements c) exchangesTemplate =
    String.join (c.exchanges.map exchangeExpression) ++ "    ]" := by
  have hparts : Template.parts exchangesTemplate =
      "".toList.map .plain ++ .placeholder "exchange_constructors".toList :: "    ]".toList.map .plain := by
    rw [exchangesTemplate, Template.parts, String.toList_ofList, String.toList_ofList, String.toList_ofList,
      String.toList_ofList]
    decide
  have hget : (replacements c).get? "exchange_constructors" =
      some (String.join (c.exchanges.map exchangeExpression)) :=
    NameMap.get?_ofList_of_mem placeholders_nodup (by simp)
  rw [Template.filledLine_placeholder hparts hget, String.empty_append]

/-- The lines up to that with the identifier of the device. -/
def deviceFront : List String :=
  start ++ [ratePrefix ++ c.channel.baudRate.text ++ ";"] ++ deviceStart

/-- The lines up to the end of the list of exchanges. -/
def clientLines : List String :=
  deviceFront c ++ (devicePrefix ++ quoted c.channel.identifier ++ "\";") ::
    (encodingStart ++ [encodingPrefix ++ encodingTag c.encoding ++ ";"] ++ exchangesStart ++
      [String.join (c.exchanges.map exchangeExpression) ++ "    ]"])

/-- The client has these lines and then the others of the template, filled. -/
theorem generate_eq_ok_lines {file : SourceFile} (h : generate c = .ok file) : file =
    ⟨[fileName], lines (clientLines c ++ otherTemplates.map (Template.filledLine (replacements c)))⟩ := by
  obtain ⟨contents, hfill, hfile⟩ := bind_eq_ok.1 h
  cases hfile
  have hnames : ∀ name ∈ Template.names skeleton, (replacements c).contains name = true :=
    fun name hname => (contains_replacements c).2 (placeholder_mem name hname)
  have hpopulated := fillSource_eq_ok.1 hfill
  rw [skeleton_eq, Template.names_lines] at hnames
  rw [skeleton_eq, Template.populate_lines hnames] at hpopulated
  obtain rfl := Except.ok.inj hpopulated
  simp only [List.map_append, List.map_cons, List.map_nil, Template.map_filledLine_plain plain_start,
    filledLine_rate, Template.map_filledLine_plain plain_deviceStart, filledLine_device,
    Template.map_filledLine_plain plain_encodingStart, filledLine_encoding,
    Template.map_filledLine_plain plain_exchangesStart, filledLine_exchanges, deviceFront, clientLines]

/-- The client begins with these lines. -/
theorem generate_eq_ok {file : SourceFile} (h : generate c = .ok file) :
    ∃ others, file = ⟨[fileName], lines (clientLines c ++ others)⟩ :=
  ⟨_, generate_eq_ok_lines c h⟩

end Source

/-! ## The identifier of the device -/

/-- The text of the literal in the line that begins with the given front. -/
def literalBehind? (front line : List Char) : Option (List Char) := do
  let held ← front.isPrefixOf? line
  let (text, behind) ← readLiteral held
  if behind = [';'] then some text else none

/-- The identifier of the device that a program names. -/
def identifierIn? (program : List Char) : Option (List Char) :=
  (program.splitOn '\n').findSome? (literalBehind? devicePrefix.toList)

theorem literalBehind?_quoted (front : List Char) (text : String) :
    literalBehind? front (front ++ ((quoted text).toList ++ ['"', ';'])) = some text.toList := by
  have hfront : front.isPrefixOf? (front ++ ((quoted text).toList ++ ['"', ';'])) =
      some ((quoted text).toList ++ ['"', ';']) := List.isPrefixOf?_eq_some_iff_append_eq.2 rfl
  rw [literalBehind?, hfront]
  simp only [bind, Option.bind_some, readLiteral_quoted, ↓reduceIte]

theorem newline_notMem_quotedChar (c : Char) : '\n' ∉ quotedChar c := by
  fun_cases quotedChar c with
  | case7 c _ _ hnewline => exact fun hmem => hnewline (List.mem_singleton.1 hmem).symm
  | case8 c =>
      have hdigits : '\n' ∉ Nat.toDigits 16 c.toNat := by
        intro hmem
        obtain ⟨k, hk, heq⟩ := mem_toDigits_sixteen hmem
        exact absurd heq ((by decide : ∀ k < 16, '\n' ≠ Nat.digitChar k) k hk)
      simp [hdigits]
  | _ => decide

theorem newline_notMem_quoted (text : String) : '\n' ∉ (quoted text).toList := by
  rw [quoted, String.toList_ofList, List.mem_flatMap]
  rintro ⟨c, _, hc⟩
  exact newline_notMem_quotedChar c hc

theorem toList_rate (rate : BaudRate) : rate.text.toList = decimalDigits rate.value.toNat :=
  Nat.toList_repr

theorem notMem_rate (rate : BaudRate) {c : Char} (hc : c.isDigit = false) : c ∉ rate.text.toList := by
  rw [toList_rate]
  intro hmem
  rw [isDigit_of_mem_decimalDigits hmem] at hc
  cases hc

section Source

variable (c : Contract)

theorem newline_notMem_rateLine : '\n' ∉ (ratePrefix ++ c.channel.baudRate.text ++ ";").toList := by
  simp [ratePrefix, notMem_rate c.channel.baudRate (c := '\n') rfl]

theorem newline_notMem_deviceLine : '\n' ∉ (devicePrefix ++ quoted c.channel.identifier ++ "\";").toList := by
  simp [devicePrefix, newline_notMem_quoted]

theorem literalBehind?_rateLine :
    literalBehind? devicePrefix.toList (ratePrefix ++ c.channel.baudRate.text ++ ";").toList = none := by
  have hfront : devicePrefix.toList.isPrefixOf? (ratePrefix ++ c.channel.baudRate.text ++ ";").toList = none := by
    rw [devicePrefix, ratePrefix, String.toList_append, String.toList_append, String.toList_ofList, String.toList_ofList]
    rfl
  rw [literalBehind?, hfront]
  rfl

theorem literalBehind?_plain : ∀ text ∈ start ++ deviceStart, literalBehind? devicePrefix.toList text.toList = none := by
  simp only [start, deviceStart, List.cons_append, List.nil_append, List.forall_mem_cons, devicePrefix, literalBehind?]
  refine ⟨?_, ?_, ?_, ?_, ?_, ?_, ?_, ?_, ?_, ?_, ?_, ?_, ?_, ?_, List.forall_mem_nil _⟩
  all_goals
    rw [String.toList_ofList, String.toList_ofList]
    rfl

theorem deviceFront_spec : ∀ text ∈ deviceFront c,
    '\n' ∉ text.toList ∧ literalBehind? devicePrefix.toList text.toList = none := by
  intro text htext
  rw [deviceFront, List.mem_append, List.mem_append, List.mem_singleton] at htext
  rcases htext with (htext | rfl) | htext
  · exact ⟨(plain_start text htext).newline, literalBehind?_plain text (List.mem_append_left _ htext)⟩
  · exact ⟨newline_notMem_rateLine c, literalBehind?_rateLine c⟩
  · exact ⟨(plain_deviceStart text htext).newline, literalBehind?_plain text (List.mem_append_right _ htext)⟩

/-- The client names the identifier of the device. -/
theorem identifierIn?_client (others : List String) :
    identifierIn? (lines (clientLines c ++ others)).toList = some c.channel.identifier.toList := by
  have hfront : ((deviceFront c).map String.toList).findSome? (literalBehind? devicePrefix.toList) = none := by
    rw [List.findSome?_eq_none_iff, List.forall_mem_map]
    exact fun text htext => (deviceFront_spec c text htext).2
  have hdevice : literalBehind? devicePrefix.toList (devicePrefix ++ quoted c.channel.identifier ++ "\";").toList =
      some c.channel.identifier.toList := by
    rw [String.toList_append, String.toList_append, List.append_assoc]
    exact literalBehind?_quoted _ _
  rw [identifierIn?, splitOn_toList_lines, clientLines, List.append_assoc, List.cons_append, List.flatMap_append,
    List.flatMap_cons,
    splitOn_lines_eq_map fun text htext => (deviceFront_spec c text htext).1,
    List.splitOn_eq_singleton (newline_notMem_deviceLine c), List.append_assoc, List.findSome?_append, hfront,
    Option.none_or, List.append_assoc, List.singleton_append, List.findSome?_cons, hdevice]

end Source

/-! ## Spelling -/

theorem selfEnding_rate : SelfEnding (fun _ : BaudRate => True) fun rate => rate.text.toList ++ [';'] := by
  refine .upTo (fun rate _ => notMem_rate rate rfl) fun a b _ _ h => ?_
  have hboth := readDigits_decimalDigits a.value.toNat
  rw [← toList_rate, h, toList_rate, readDigits_decimalDigits, Option.some.injEq] at hboth
  cases a
  cases b
  cases UInt32.toNat_inj.1 hboth
  rfl

theorem selfEnding_quoted : SelfEnding (fun _ : String => True) fun text => (quoted text).toList ++ ['"'] := by
  refine .of_read readLiteral (fun _ _ _ _ => String.toList_inj.1) fun text rest _ => ?_
  rw [List.append_assoc]
  exact readLiteral_quoted text rest

theorem selfEnding_encoding : SelfEnding (fun _ : Encoding => True) fun encoding =>
    (encodingTag encoding).toList ++ [';'] :=
  .upTo (fun encoding _ => by cases encoding <;> decide) fun a b _ _ => by cases a <;> cases b <;> decide

/-- What stands in front of the speed of the line, of the identifier, of the encoding and of the exchanges. -/
def rateStart : List Char := (lines start).toList ++ ratePrefix.toList

def identifierStart : List Char := '\n' :: (lines deviceStart).toList ++ devicePrefix.toList

def tagStart : List Char := ';' :: '\n' :: (lines encodingStart).toList ++ encodingPrefix.toList

def listStart : List Char := '\n' :: (lines exchangesStart).toList

section Source

variable (c : Contract)

theorem toList_clientLines : (lines (clientLines c)).toList =
    rateStart ++ (c.channel.baudRate.text.toList ++ [';'] ++
      (identifierStart ++ ((quoted c.channel.identifier).toList ++ ['"'] ++
        (tagStart ++ ((encodingTag c.encoding).toList ++ [';'] ++
          (listStart ++ ((String.join (c.exchanges.map exchangeExpression)).toList ++ exchangesEnd ++ ['\n']))))))) := by
  have hend : ";".toList = [';'] := by simp
  have hquote : "\";".toList = ['"', ';'] := by simp
  have hbreak : "\n".toList = ['\n'] := by simp
  simp only [lines, clientLines, deviceFront, rateStart, identifierStart, tagStart, listStart, exchangesEnd, line,
    String.toList_join, String.toList_append, List.map_append, List.map_cons, List.map_nil, List.flatMap_append,
    List.flatMap_cons, List.flatMap_nil, List.append_assoc, hend, hquote, hbreak, List.append_nil, List.cons_append,
    List.nil_append]

end Source

/-- What two contracts say, whose clients begin alike. -/
theorem eq_of_client_eq {c c' : Contract} (hc : ∀ e ∈ c.exchanges, e.Valid) (hc' : ∀ e ∈ c'.exchanges, e.Valid)
    {rest rest' : List Char}
    (h : (lines (clientLines c)).toList ++ rest = (lines (clientLines c')).toList ++ rest') :
    c.exchanges = c'.exchanges ∧ c.channel = c'.channel ∧ c.encoding = c'.encoding := by
  have hlist := (selfEnding_exchanges.before ['\n']).behind listStart
  have hencoding := (selfEnding_encoding.pair hlist).behind tagStart
  have hidentifier := (selfEnding_quoted.pair hencoding).behind identifierStart
  have hwhole := (selfEnding_rate.pair hidentifier).behind rateStart
  obtain ⟨exchanges, encoding, ⟨rate, identifier⟩, _⟩ := c
  obtain ⟨exchanges', encoding', ⟨rate', identifier'⟩, _⟩ := c'
  rw [toList_clientLines, toList_clientLines] at h
  obtain ⟨hsame, _⟩ := hwhole (a := (rate, identifier, encoding, exchanges))
    (b := (rate', identifier', encoding', exchanges')) ⟨trivial, trivial, trivial, hc⟩ ⟨trivial, trivial, trivial, hc'⟩ h
  cases hsame
  exact ⟨rfl, rfl, rfl⟩

/-- The host's client determines the exchanges, the channel and the encoding of the contract that it is generated
from. The identifier of the device is read back from it under the rules for escapes. -/
theorem client_determines_contract {d d' : ContractDeclaration} {c c' : Contract} (hload : d.load = .ok c)
    (hload' : d'.load = .ok c') : ∃ contents contents',
      generate c = .ok ⟨[fileName], contents⟩ ∧ generate c' = .ok ⟨[fileName], contents'⟩ ∧
      identifierIn? contents.toList = some c.channel.identifier.toList ∧
      identifierIn? contents'.toList = some c'.channel.identifier.toList ∧
      (contents = contents' →
        c.exchanges = c'.exchanges ∧ c.channel = c'.channel ∧ c.encoding = c'.encoding) := by
  obtain ⟨contents, hgenerate⟩ := exists_file c
  obtain ⟨contents', hgenerate'⟩ := exists_file c'
  obtain ⟨others, hfile⟩ := generate_eq_ok c hgenerate
  obtain ⟨others', hfile'⟩ := generate_eq_ok c' hgenerate'
  cases hfile
  cases hfile'
  refine ⟨_, _, hgenerate, hgenerate', identifierIn?_client c others, identifierIn?_client c' others', fun h => ?_⟩
  rw [lines_append, lines_append, ← String.toList_inj, String.toList_append, String.toList_append] at h
  exact eq_of_client_eq (ContractDeclaration.validExchanges_of_load hload).each
    (ContractDeclaration.validExchanges_of_load hload').each h

end SerialContract.Host

namespace SerialContract

namespace Bench

/-- The measurement and the note, from a device whose identifier looks like code. -/
def quoting : ContractDeclaration := { declaration with channel := some ⟨9600, "\";\nconst A: u8 = \\x41 // é"⟩ }

end Bench

theorem Host.client_determines_contract_quoting : ∃ contents contents',
    Host.generate Bench.contract = .ok ⟨[Host.fileName], contents⟩ ∧
      Host.identifierIn? contents'.toList = some "\";\nconst A: u8 = \\x41 // é".toList ∧ contents ≠ contents' := by
  obtain ⟨c, hload, hchannel⟩ : ∃ c, Bench.quoting.load = .ok c ∧
      c.channel = ⟨.usual, "\";\nconst A: u8 = \\x41 // é"⟩ :=
    ⟨{ Bench.contract with channel := ⟨.usual, "\";\nconst A: u8 = \\x41 // é"⟩ }, by decide +kernel, rfl⟩
  obtain ⟨contents, contents', hgenerate, _, _, hidentifier, hdetermines⟩ :=
    Host.client_determines_contract Bench.load_declaration hload
  rw [hchannel] at hidentifier
  refine ⟨contents, contents', hgenerate, hidentifier, fun heq => ?_⟩
  have hsame := (hdetermines heq).2.1
  rw [hchannel] at hsame
  exact absurd (congrArg Channel.identifier hsame) (by decide +kernel)

end SerialContract
