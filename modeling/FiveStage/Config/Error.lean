import FiveStage.Text.Quoted
import FiveStage.Text.Unsigned
import FiveStage.Word

/-!
# Rejected settings

Why a setting is rejected: a size outside its limits, a shape no cache can have, an empty range of
addresses, or a text that cannot be read.
-/

namespace FiveStage

/-- What a text was read as. -/
inductive ParseSubject
  | cacheSpec
  | initImage
  | initImageAddress
  | initImageValue
  | dumpRange
  | dumpRangeStart
  | dumpRangeEnd
  deriving DecidableEq, Repr

/-- A subject as the messages name it. -/
def ParseSubject.describe : ParseSubject → String
  | cacheSpec => "cache spec"
  | initImage => "init image"
  | initImageAddress => "init image address"
  | initImageValue => "init image value"
  | dumpRange => "dump range"
  | dumpRangeStart => "dump range start"
  | dumpRangeEnd => "dump range end"

/-- What is wrong with a text. -/
inductive ParseFault
  /-- a part of the text is no number -/
  | numeral (text : List Char) (error : Text.NumeralError)
  /-- a number needs more than 32 bits -/
  | wideValue (token : List Char)
  /-- a cache spec without four fields -/
  | specShape (text : List Char)
  /-- an odd count of tokens where pairs are due -/
  | unpaired (count : Nat)
  /-- a count of tokens other than two where a range is due -/
  | rangeShape (count : Nat)
  deriving DecidableEq, Repr

/-- What is wrong with a text, in words. -/
def ParseFault.message : ParseFault → String
  | numeral text error => Text.quoted text ++ ": " ++ error.message
  | wideValue token => Text.quoted token ++ " does not fit in a 32-bit word"
  | specShape text => Text.quoted text ++ ": expected SIZE,BLOCK,WAYS,LATENCY"
  | unpaired count => Text.decimal count ++ " tokens, expected address/value pairs"
  | rangeShape count =>
    "expected `start end`, found " ++ Text.decimal count ++ " tokens"

/-- Why a setting is rejected. The owner of a field is the cache or the memory it belongs to. -/
inductive ConfigError
  | zero (owner field : String)
  | notPowerOfTwo (owner field : String) (value : Nat)
  | tooLarge (owner field : String) (value limit : Nat)
  /-- the size is no multiple of the bytes in a set -/
  | geometry (owner : String) (size setBytes : Nat)
  /-- the range to dump is empty -/
  | dumpRange (start stop : Word)
  | parse (subject : ParseSubject) (fault : ParseFault)
  deriving DecidableEq, Repr

/-- The message for a rejected setting. -/
def ConfigError.message : ConfigError → String
  | zero owner field => owner ++ ": " ++ field ++ " must be non-zero"
  | notPowerOfTwo owner field value =>
    owner ++ ": " ++ field ++ " = " ++ Text.decimal value ++ " is not a power of two"
  | tooLarge owner field value limit =>
    owner ++ ": " ++ field ++ " = " ++ Text.decimal value ++ " exceeds the limit of "
      ++ Text.decimal limit
  | geometry owner size setBytes =>
    owner ++ ": size " ++ Text.decimal size ++ " is not a multiple of block_bytes * ways ("
      ++ Text.decimal setBytes ++ ")"
  | dumpRange start stop =>
    "memory dump range " ++ Text.hex start.toNat ++ ".." ++ Text.hex stop.toNat ++ " is empty"
  | parse subject fault => "cannot parse " ++ subject.describe ++ ": " ++ fault.message

end FiveStage
