import TradeSynth.CheckedMemoryProofs
import TradeSynth.FixedCodecProofs
import TradeSynth.PolyHashProofs
import TradeSynth.TradeTypesProofs
import TradeSynth.TradeCodecProofs
import TradeSynth.TradeWireProofs
import TradeSynth.TradeCorruptionProofs
import TradeSynth.TradeReceiveProofs
import TradeSynth.DescriptorLedgerProofs
import TradeSynth.TradeRegistryProofs
import TradeSynth.TradeRunProofs
import TradeSynth.TradeOwnershipProofs
import TradeSynth.TradeHandlersProofs
import TradeSynth.TradeBroadcastProofs
import TradeSynth.TradeEnvelopeProofs
import TradeSynth.TradeStringsProofs
import TradeSynth.TradeDispatchProofs
import TradeSynth.TransitionProofs
import TradeSynth.TradeCapacityProofs
import TradeSynth.PrefixCodeProofs
import TradeSynth.TradeSendersProofs
import TradeSynth.TradeRoutingProofs
import TradeSynth.TradeBindingProofs
import TradeSynth.TradeWalkProofs
import TradeSynth.TicketProofs
import TradeSynth.TradeOrderingProofs
import TradeSynth.TradeShutdownProofs
import TradeSynth.TradeAtomicProofs
import TradeSynth.TradeAdmissionProofs
import TradeSynth.TradeQuotesProofs
import TradeSynth.TradeClientProofs
import TradeSynth.TradeSessionProofs
import TradeSynth.TradeConnectProofs
import TradeSynth.TradeCallbackProofs
import TradeSynth.TradeChecksumProofs
import TradeSynth.TradePaddingProofs
import TradeSynth.TradeReuseProofs
import TradeSynth.TradeSwitchesProofs
import TradeSynth.ScaledDecimalProofs
import TradeSynth.TradePriceProofs
import TradeSynth.TradeTrimProofs
import TradeSynth.LockedOutputProofs
import TradeSynth.TradeLogProofs
import TradeSynth.TradeLogFileProofs
import TradeSynth.PositionalProofs
import TradeSynth.TradeHashProofs
import TradeSynth.InterleavingProofs
import TradeSynth.TradeDeliveryProofs
import TradeSynth.TradeConsoleProofs
import TradeSynth.NumeralProofs
import TradeSynth.TradeNumeralsProofs
import TradeSynth.TradeTextProofs
import TradeSynth.TradeOptionsProofs
import TradeSynth.TradeServerProgramProofs
import TradeSynth.TradeClientProgramProofs
import TradeSynth.TradeQuotationProofs
import TradeSynth.TradeIntakeProofs
import TradeSynth.TradeProgressProofs
