import SerialContract.Text.Lines

/-!
# The firmware's files before they are filled in

The templates of the five files of the firmware, in plain C++. What depends on the contract is left to
placeholders.
-/

namespace SerialContract.Firmware.Skeleton

/-- The declarations of the parser of requests. -/
def parserHeader : String := lines [
  "#ifndef HARDSYNC_PARSER_H",
  "#define HARDSYNC_PARSER_H",
  "",
  "#include <string>",
  "",
  "#define MAX_ARGS \x7b\x7bmax_args\x7d\x7d",
  "#define ARGUMENT_BEGINNER \"\x7b\x7bargument_beginner\x7d\x7d\"",
  "#define ARGUMENT_ENDER \"\x7b\x7bargument_ender\x7d\x7d\"",
  "#define ARGUMENT_DELIMITER \"\x7b\x7bargument_delimiter\x7d\x7d\"",
  "#define ARGUMENT_ASSIGNER \"\x7b\x7bargument_assigner\x7d\x7d\"",
  "#define EXCHANGE_TERMINATOR \"\x7b\x7bexchange_terminator\x7d\x7d\"",
  "#define FLOAT_PRECISION \x7b\x7bfloat_precision\x7d\x7d",
  "",
  "struct Argument \x7b",
  "    std::string key;",
  "    std::string value;",
  "\x7d;",
  "",
  "struct ParsedFunction \x7b",
  "    std::string name;",
  "    Argument arguments[MAX_ARGS];",
  "    int argCount;",
  "\x7d;",
  "",
  "ParsedFunction parseFunction(const std::string& input);",
  "std::string extractName(const std::string& input);",
  "std::string extractArgs(const std::string& input);",
  "int extractInt(const ParsedFunction& fn, const std::string& key);",
  "double extractDouble(const ParsedFunction& fn, const std::string& key);",
  "float extractFloat(const ParsedFunction& fn, const std::string& key);",
  "std::string extractString(const ParsedFunction& fn, const std::string& key);",
  "",
  "#endif"]

/-- The parser of requests. -/
def parserSource : String := lines [
  "#include <string>",
  "#include \"parser.h\"",
  "",
  "std::string extractName(const std::string& input) \x7b",
  "    int end = input.find(ARGUMENT_BEGINNER);",
  "    if (end == -1) \x7b",
  "        return \"\";",
  "    \x7d",
  "    return input.substr(0, end);",
  "\x7d",
  "",
  "std::string extractArgs(const std::string& input) \x7b",
  "    int start = input.find(ARGUMENT_BEGINNER);",
  "    int end = input.find(ARGUMENT_ENDER);",
  "    if (start == -1 || end == -1 || end < start) \x7b",
  "        return \"\";",
  "    \x7d",
  "    int count = end - start - 1;",
  "    return input.substr(start + 1, count);",
  "\x7d",
  "",
  "ParsedFunction parseFunction(const std::string& input) \x7b",
  "    ParsedFunction result;",
  "    result.argCount = 0;",
  "    result.name = extractName(input);",
  "",
  "    std::string args = extractArgs(input);",
  "    int argsLength = args.length();",
  "    int argStart = 0;",
  "    while (argStart < argsLength) \x7b",
  "        if (result.argCount == MAX_ARGS) \x7b",
  "            result.name = \"\";",
  "            return result;",
  "        \x7d",
  "        int argEnd = args.find(ARGUMENT_DELIMITER, argStart);",
  "        if (argEnd == -1) \x7b",
  "            argEnd = argsLength;",
  "        \x7d",
  "        int length = argEnd - argStart;",
  "        std::string arg = args.substr(argStart, length);",
  "",
  "        int eqPos = arg.find(ARGUMENT_ASSIGNER);",
  "        if (eqPos == -1) \x7b",
  "            result.name = \"\";",
  "            return result;",
  "        \x7d",
  "        result.arguments[result.argCount].key = arg.substr(0, eqPos);",
  "        result.arguments[result.argCount].value = arg.substr(eqPos + 1);",
  "        result.argCount++;",
  "",
  "        argStart = argEnd + 1;",
  "    \x7d",
  "    return result;",
  "\x7d",
  "",
  "static int findArgument(const ParsedFunction& fn, const std::string& key) \x7b",
  "    for (int i = 0; i < fn.argCount; i++) \x7b",
  "        if (fn.arguments[i].key == key) \x7b",
  "            return i;",
  "        \x7d",
  "    \x7d",
  "    return -1;",
  "\x7d",
  "",
  "int extractInt(const ParsedFunction& fn, const std::string& key) \x7b",
  "    int index = findArgument(fn, key);",
  "    if (index == -1) \x7b",
  "        return 0;",
  "    \x7d",
  "    std::string raw = fn.arguments[index].value;",
  "    return std::stoi(raw);",
  "\x7d",
  "",
  "double extractDouble(const ParsedFunction& fn, const std::string& key) \x7b",
  "    int index = findArgument(fn, key);",
  "    if (index == -1) \x7b",
  "        return 0.0;",
  "    \x7d",
  "    std::string raw = fn.arguments[index].value;",
  "    return std::stod(raw);",
  "\x7d",
  "",
  "float extractFloat(const ParsedFunction& fn, const std::string& key) \x7b",
  "    int index = findArgument(fn, key);",
  "    if (index == -1) \x7b",
  "        return 0.0;",
  "    \x7d",
  "    std::string raw = fn.arguments[index].value;",
  "    return std::stof(raw);",
  "\x7d",
  "",
  "std::string extractString(const ParsedFunction& fn, const std::string& key) \x7b",
  "    int index = findArgument(fn, key);",
  "    if (index == -1) \x7b",
  "        return \"\";",
  "    \x7d",
  "    return fn.arguments[index].value;",
  "\x7d"]

/-- The declaration of the class that answers requests. -/
def clientHeader : String := lines [
  "#ifndef HARDSYNC_CLIENT_H",
  "#define HARDSYNC_CLIENT_H",
  "",
  "#include \"Arduino.h\"",
  "#include <string>",
  "#include \"parser.h\"",
  "\x7b\x7bresponse_structs\x7d\x7d",
  "class Client \x7b",
  "public:",
  "    Client();",
  "    virtual ~Client();",
  "",
  "    void begin();",
  "    void respond();",
  "",
  "    void pingWrapper() const;",
  "\x7b\x7bvirtual_declarations\x7d\x7d\x7b\x7bwrapper_declarations\x7d\x7d",
  "    void unidentifiedCommand(const std::string& name) const;",
  "    void badCommandFormat() const;",
  "\x7d;",
  "",
  "#endif"]

/-- The class that answers requests. -/
def clientSource : String := lines [
  "#include <string>",
  "#include \"client.h\"",
  "#include \"parser.h\"",
  "",
  "Client::Client() = default;",
  "",
  "Client::~Client() = default;",
  "",
  "void Client::begin() \x7b",
  "    Serial.begin(\x7b\x7bbaud_rate\x7d\x7d);",
  "\x7d",
  "",
  "void Client::respond() \x7b",
  "    if (!Serial.available()) \x7b",
  "        return;",
  "    \x7d",
  "    std::string message = Serial.readStringUntil('\x7b\x7bexchange_terminator\x7d\x7d').c_str();",
  "    ParsedFunction parsed = parseFunction(message);",
  "",
  "    if (parsed.name == \"PingRequest\") \x7b",
  "        this->pingWrapper();",
  "\x7b\x7brespond_invocations\x7d\x7d    \x7d else if (parsed.name == \"\") \x7b",
  "        this->badCommandFormat();",
  "    \x7d else \x7b",
  "        this->unidentifiedCommand(parsed.name);",
  "    \x7d",
  "\x7d",
  "",
  "void Client::pingWrapper() const \x7b",
  "    Serial.print(\"PingResponse\");",
  "    Serial.print(ARGUMENT_BEGINNER);",
  "    Serial.print(ARGUMENT_ENDER);",
  "    Serial.print(EXCHANGE_TERMINATOR);",
  "\x7d",
  "\x7b\x7bwrapper_implementations\x7d\x7d",
  "void Client::unidentifiedCommand(const std::string& name) const \x7b",
  "    Serial.print(\"ErrorResponse\");",
  "    Serial.print(ARGUMENT_BEGINNER);",
  "    Serial.print(\"\x7b\x7berror_field\x7d\x7d\");",
  "    Serial.print(ARGUMENT_ASSIGNER);",
  "    Serial.print(\"Unidentified command: \");",
  "    Serial.print(name.c_str());",
  "    Serial.print(ARGUMENT_ENDER);",
  "    Serial.print(EXCHANGE_TERMINATOR);",
  "\x7d",
  "",
  "void Client::badCommandFormat() const \x7b",
  "    Serial.print(\"ErrorResponse\");",
  "    Serial.print(ARGUMENT_BEGINNER);",
  "    Serial.print(\"\x7b\x7berror_field\x7d\x7d\");",
  "    Serial.print(ARGUMENT_ASSIGNER);",
  "    Serial.print(\"Unable to parse command. Expected a request name followed by an argument list\");",
  "    Serial.print(ARGUMENT_ENDER);",
  "    Serial.print(EXCHANGE_TERMINATOR);",
  "\x7d"]

/-- The program with the handlers that the device's author fills in. -/
def sketch : String := lines [
  "#include \"client.h\"",
  "",
  "class Device : public Client \x7b",
  "public:",
  "\x7b\x7bhandler_stubs\x7d\x7d\x7d;",
  "",
  "Device device;",
  "",
  "void setup() \x7b",
  "    device.begin();",
  "\x7d",
  "",
  "void loop() \x7b",
  "    device.respond();",
  "\x7d"]

end SerialContract.Firmware.Skeleton
