import SerialContract.Text.Lines

/-!
# The host's file before it is filled in

The template of the host's client, in Rust. What depends on the contract is left to placeholders.
-/

namespace SerialContract.Host

/-- The client of the host. -/
def skeleton : String := lines [
  "//! Host client for a hardsync contract.",
  "//!",
  "//! Generated by hardsync. Regenerate from the contract instead of editing.",
  "",
  "#![allow(unused_imports)]",
  "",
  "use hardsync_client::\x7b",
  "    Client, ClientResult, EncodingKind, Exchange, FieldSet, FieldValue, FieldValues, SemanticType,",
  "\x7d;",
  "use std::io::\x7bRead, Write\x7d;",
  "",
  "/// Baud rate declared by the contract.",
  "pub const BAUD_RATE: u32 = \x7b\x7bbaud_rate\x7d\x7d;",
  "",
  "/// Device identifier declared by the contract; empty when unknown.",
  "pub const DEVICE_IDENTIFIER: &str = \"\x7b\x7bidentifier\x7d\x7d\";",
  "",
  "/// Wire encoding declared by the contract.",
  "pub const ENCODING: EncodingKind = EncodingKind::\x7b\x7bencoding\x7d\x7d;",
  "",
  "/// Every exchange declared by the contract.",
  "pub fn exchanges() -> Vec<Exchange> \x7b",
  "    vec![",
  "\x7b\x7bexchange_constructors\x7d\x7d    ]",
  "\x7d",
  "\x7b\x7bresponse_structs\x7d\x7d",
  "/// Typed access to a device running the generated firmware.",
  "pub struct DeviceClient<T: Read + Write> \x7b",
  "    client: Client<T>,",
  "\x7d",
  "",
  "impl<T: Read + Write> DeviceClient<T> \x7b",
  "    /// Wrap an open transport.",
  "    pub fn new(transport: T) -> Self \x7b",
  "        DeviceClient \x7b",
  "            client: Client::new(transport, ENCODING, exchanges()),",
  "        \x7d",
  "    \x7d",
  "",
  "    /// Adopt a connected client, such as the one discovery returns, keeping",
  "    /// any bytes it has already read.",
  "    pub fn from_client(client: Client<T>) -> Self \x7b",
  "        DeviceClient \x7b",
  "            client: client.with_exchanges(ENCODING, exchanges()),",
  "        \x7d",
  "    \x7d",
  "",
  "    /// The underlying untyped client.",
  "    pub fn client(&mut self) -> &mut Client<T> \x7b",
  "        &mut self.client",
  "    \x7d",
  "",
  "    /// Check that the device is responding.",
  "    pub fn request_ping(&mut self) -> ClientResult<()> \x7b",
  "        self.client.ping()",
  "    \x7d",
  "\x7b\x7brequest_methods\x7d\x7d\x7d"]

end SerialContract.Host
