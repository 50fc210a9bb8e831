import TradeDesk.Text.Quoted

/-!
The ways a command, a reading or a setting can fail, each with its cause. `Fault.message` gives
the text a user sees; `Fault.family` groups the causes into the families that callers tell apart
(a bad command, a closed exchange, a cancelled algorithm, arithmetic, unreadable text).
-/

namespace TradeDesk

inductive Fault where
  /-- a side other than buy or sell -/
  | badSide
  /-- a stop trigger other than mark, index or last -/
  | badTrigger (trigger : String)
  /-- a cancel scope other than session, tagged, buy, sell or all -/
  | badScope
  /-- an absolute price `@…` that is not a positive number -/
  | badAbsolutePrice (offset : String)
  /-- a macro name that the exchange does not know -/
  | noMacro (name : String)
  /-- an amount with units on an exchange that trades whole contracts -/
  | contractUnits (exchange : String)
  /-- a ping-pong distance that is not a positive price distance -/
  | badPongDistance (raw : String)
  /-- an action that names neither a command nor a macro -/
  | unknownCommand (name : String)
  /-- a call to an exchange adapter that has been closed -/
  | closedExchange
  /-- a TWAP order that found its cancellation flag set -/
  | twapCancelled
  /-- a decimal operation outside the decimal context, or on an infinity -/
  | invalidDecimal
  /-- a decimal result past the largest exponent of the decimal context -/
  | decimalOverflow
  /-- a division by zero -/
  | divisionByZero
  /-- an infinite float where a whole number was needed -/
  | infiniteToWhole
  /-- a rounded float beyond the largest finite one -/
  | roundingOverflow
  /-- a whole number too large to become a float -/
  | wholeTooLarge
  /-- a quotient of whole numbers too large for a float -/
  | quotientTooLarge
  /-- a text that is no float literal -/
  | notAFloat (text : String)
  /-- a whole number written with more digits than the interpreter converts -/
  | tooManyDigits (digits : Nat)
  /-- a key that a table does not hold -/
  | missingKey (key : String)
  /-- macros that call each other without end -/
  | tooDeep
  /-- a polling loop that ran past the polls it was given -/
  | pollsExhausted
deriving Repr, DecidableEq, Inhabited

inductive FaultFamily where
  | command
  | unknownCommand
  | transport
  | algoCancelled
  | invalidDecimal
  | decimalOverflow
  | division
  | overflow
  | unreadable
  | missingKey
  | recursion
  | exhausted
deriving Repr, DecidableEq

namespace Fault

def family : Fault → FaultFamily
  | .badSide | .badTrigger _ | .badScope | .badAbsolutePrice _ | .noMacro _
  | .contractUnits _ | .badPongDistance _ => .command
  | .unknownCommand _ => .unknownCommand
  | .closedExchange => .transport
  | .twapCancelled => .algoCancelled
  | .invalidDecimal => .invalidDecimal
  | .decimalOverflow => .decimalOverflow
  | .divisionByZero => .division
  | .infiniteToWhole | .roundingOverflow | .wholeTooLarge | .quotientTooLarge => .overflow
  | .notAFloat _ | .tooManyDigits _ => .unreadable
  | .missingKey _ => .missingKey
  | .tooDeep => .recursion
  | .pollsExhausted => .exhausted

def message : Fault → String
  | .badSide => "side must be buy or sell"
  | .badTrigger t => "Stop trigger '" ++ t ++ "' not supported, use one of: mark, index, last"
  | .badScope => "cancelOrders which must be one of: session, tagged, buy, sell, all"
  | .badAbsolutePrice o => "Absolute price '" ++ o ++ "' is not a positive number"
  | .noMacro n => "No macro named " ++ n ++ " found."
  | .contractUnits x =>
    x ++ " amount does not support % or units. Use just the number of contracts (eg '1')"
  | .badPongDistance r => "pongDistance '" ++ r ++ "' must be a positive price distance"
  | .unknownCommand n => "Unknown command: " ++ n
  | .closedExchange => "paper exchange is closed"
  | .twapCancelled => "TWAP order cancelled - aborting"
  | .invalidDecimal => "[<class 'decimal.InvalidOperation'>]"
  | .decimalOverflow => "[<class 'decimal.Overflow'>]"
  | .divisionByZero => "float division by zero"
  | .infiniteToWhole => "cannot convert float infinity to integer"
  | .roundingOverflow => "rounded value too large to represent"
  | .wholeTooLarge => "int too large to convert to float"
  | .quotientTooLarge => "integer division result too large for a float"
  | .notAFloat t => "could not convert string to float: " ++ Text.quoted t
  | .tooManyDigits n => "Exceeds the limit (4300 digits) for integer string conversion: value has " ++
    toString n ++ " digits; use sys.set_int_max_str_digits() to increase the limit"
  | .missingKey k => Text.quoted k
  | .tooDeep => "maximum recursion depth exceeded"
  | .pollsExhausted => "polling ran past its budget"

end Fault

end TradeDesk
