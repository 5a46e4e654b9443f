import Mathlib.Tactic
import Ratelimitly.Lib.Outcome

/-! The error types of the crate and their conversions. -/
namespace Ratelimitly

/-- `std::io::ErrorKind`; the client tells `AddrInUse` from every other kind. -/
inductive ErrorKind where
  | addrInUse
  | addrNotAvailable
  | other
  | unlisted (raw : ℕ)
  deriving DecidableEq, Repr

/-- `std::io::Error`. -/
structure IoError where
  kind : ErrorKind
  message : String
  deriving DecidableEq, Repr

inductive ApiKeyError where
  | invalidEncoding
  | unsupportedVersion
  | unsupportedCredential
  | invalidLimits
  deriving DecidableEq, Repr

inductive ConfigurationError where
  | invalidDuration (field : String)
  | missingTrackerField (field : String)
  | invalidName (kind : String)
  | invalidTrackerValue (field : String)
  | invalidTokenQuantity
  | invalidMetricsLabel
  | resourceWindowExceedsApiKey
  | invalidRequestPolicy
  | requestPolicyExceedsApiKey
  | invalidServiceDomain
  | tooManyRequestEntries (kind : String)
  | unsupported
  deriving DecidableEq, Repr

/-- The `Display` text of a configuration error. -/
def ConfigurationError.toText : ConfigurationError → String
  | .invalidDuration field =>
    field ++ " must be a positive whole number of milliseconds that fits in u32"
  | .missingTrackerField field => "latency tracker is missing " ++ field
  | .invalidName kind => kind ++ " name is invalid"
  | .invalidTrackerValue field => "latency tracker " ++ field ++ " must be positive"
  | .invalidTokenQuantity => "tokens requested must be between 1 and 65535"
  | .invalidMetricsLabel => "metrics label is too long"
  | .resourceWindowExceedsApiKey => "resource window exceeds the API key limit"
  | .invalidRequestPolicy => "request policy schedule is invalid"
  | .requestPolicyExceedsApiKey => "request policy exceeds the API key limit"
  | .invalidServiceDomain => "service domain is invalid"
  | .tooManyRequestEntries kind => "request contains too many " ++ kind
  | .unsupported => "configuration is not supported"

/-- The internal error of the core client. -/
inductive CoreError where
  | io (error : IoError)
  | timeout
  | protocol (message : String)
  | auth (message : String)
  | dns (message : String)
  | config (message : String)
  deriving DecidableEq, Repr

/-- The public error of the crate. -/
inductive Error where
  | invalidApiKey (error : ApiKeyError)
  | invalidConfiguration (error : ConfigurationError)
  | discovery
  | communication (error : IoError)
  | timeout
  | protocol
  | authentication
  deriving DecidableEq, Repr

/-- `impl From<CoreError> for Error`. -/
def Error.ofCoreError : CoreError → Error
  | .io source => .communication source
  | .timeout => .timeout
  | .protocol _ => .protocol
  | .auth _ => .authentication
  | .dns _ => .discovery
  | .config _ => .invalidConfiguration .unsupported

/-- The `{:#x}` text of a number. -/
def hexText (n : ℕ) : String := "0x" ++ String.ofList (Nat.toDigits 16 n)

/-- The `{}` text of a number. -/
def decText (n : ℕ) : String := String.ofList (Nat.toDigits 10 n)

end Ratelimitly
