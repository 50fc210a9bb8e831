import TradeDesk.Amount.Quantity
import TradeDesk.Amount.Reading
import TradeDesk.Amount.Rounding
import TradeDesk.Binary64.Basic
import TradeDesk.Binary64.Order
import TradeDesk.Binary64.Places
import TradeDesk.Binary64.Shortest
import TradeDesk.Binary64.Sum
import TradeDesk.Clock.Job
import TradeDesk.Clock.Pool
import TradeDesk.Clock.Wallclock
import TradeDesk.Command.Action
import TradeDesk.Command.Argument
import TradeDesk.Command.Params
import TradeDesk.Data.Assoc
import TradeDesk.Decimal.Literal
import TradeDesk.Decimal.Quantize
import TradeDesk.Exchange.Commands
import TradeDesk.Exchange.Desk
import TradeDesk.Exchange.Pricing
import TradeDesk.Exchange.World
import TradeDesk.Fault
import TradeDesk.Handler.Basic
import TradeDesk.Handler.Dispatch
import TradeDesk.Handler.Iceberg
import TradeDesk.Handler.Ladder
import TradeDesk.Handler.Orders
import TradeDesk.Handler.PingPong
import TradeDesk.Handler.Twap
import TradeDesk.Handler.Utility
import TradeDesk.Ladder.Draws
import TradeDesk.Ladder.Easing
import TradeDesk.Ladder.Scaled
import TradeDesk.Main
import TradeDesk.Market.Pair
import TradeDesk.Market.Quote
import TradeDesk.Market.Side
import TradeDesk.Notify
import TradeDesk.Paper.Market
import TradeDesk.Paper.Wallet
import TradeDesk.Polling.Backoff
import TradeDesk.Polling.RateLimit
import TradeDesk.Registry.Algo
import TradeDesk.Registry.Session
import TradeDesk.Settings
import TradeDesk.Simulation.Bench
import TradeDesk.Simulation.Inbox
import TradeDesk.Text.Blank
import TradeDesk.Text.Case.Lower
import TradeDesk.Text.Case.Sigma
import TradeDesk.Text.Case.Upper
import TradeDesk.Text.CodeRange
import TradeDesk.Text.DecimalDigit
import TradeDesk.Text.Printable
import TradeDesk.Text.Quoted
import TradeDesk.Wallet.Sizing
import TradeDesk.Proofs.CommandReading
import TradeDesk.Proofs.PaperLedger
import TradeDesk.Proofs.DeskFrame
import TradeDesk.Proofs.DeskSharing
import TradeDesk.Proofs.InboxSharing
import TradeDesk.Proofs.Standing
import TradeDesk.Proofs.NameLookup
import TradeDesk.Proofs.MacroExpansion
import TradeDesk.Proofs.Outcomes
import TradeDesk.Proofs.LimitOrders
import TradeDesk.Proofs.PingPongBooks
import TradeDesk.Proofs.IcebergAccounts
import TradeDesk.Proofs.Registering
import TradeDesk.Proofs.RunningAlgos
import TradeDesk.Proofs.Runs
import TradeDesk.Proofs.Refusals
import TradeDesk.Proofs.Ladders
import TradeDesk.Proofs.SlicedOrders
import TradeDesk.Proofs.CancelScopes
import TradeDesk.Proofs.ParamBinding
import TradeDesk.Proofs.ArgumentSplitting
import TradeDesk.Proofs.ContractAmounts
import TradeDesk.Proofs.OffsetPrices
import TradeDesk.Proofs.RegistryRuns
import TradeDesk.Proofs.QuoteCrossing
import TradeDesk.Proofs.TableBuilding
import TradeDesk.Proofs.WholeFloats
import TradeDesk.Proofs.WholeDecimals
import TradeDesk.Proofs.Delivering
import TradeDesk.Proofs.TargetPositions
import TradeDesk.Proofs.Notifying
import TradeDesk.Proofs.FloatOrder
import TradeDesk.Proofs.TickerCaching
import TradeDesk.Proofs.RateLimiting
import TradeDesk.Proofs.OrderSizing
import TradeDesk.Proofs.CommandSequences
import TradeDesk.Proofs.NotifyCommand
import TradeDesk.Proofs.Numerals
import TradeDesk.Proofs.FirstNumbers
import TradeDesk.Proofs.QuantityReading
import TradeDesk.Proofs.NearestFloats
import TradeDesk.Proofs.AmountTexts
import TradeDesk.Proofs.RoundedArithmetic
import TradeDesk.Proofs.Pacing
import TradeDesk.Proofs.PlaceRounding
import TradeDesk.Proofs.EasingCurves
import TradeDesk.Proofs.ScaledLadders
import TradeDesk.Proofs.ShortestDecimals
import TradeDesk.Proofs.ShortestMinimality
import TradeDesk.Proofs.DecimalRounding
import TradeDesk.Proofs.SpreadPrices
