import Frostsnap.Core.NonceMerge
import Frostsnap.Core.NonceSafety
import Frostsnap.Core.OpenStreams
import Frostsnap.Core.SlotUniqueness
import Frostsnap.Core.TweakHomomorphism
import Frostsnap.Embedded.Erase
import Frostsnap.Embedded.LogCrash
import Frostsnap.Embedded.LogReplay
import Frostsnap.Embedded.LogRoundTrip
import Frostsnap.Embedded.NonceCrash
import Frostsnap.Coordinator.BackupRun
import Frostsnap.Coordinator.BatchCrash
import Frostsnap.Coordinator.FinishRestoring
import Frostsnap.Coordinator.KeyGen
import Frostsnap.Coordinator.RestorationStability
import Frostsnap.Coordinator.SavedBackups
import Frostsnap.Coordinator.ShareLookup
import Frostsnap.Coordinator.SubsetSearch
import Frostsnap.Coordinator.TrustedCerts
import Frostsnap.Backup.Canonical
import Frostsnap.Bitcoin.Amounts
import Frostsnap.Bitcoin.CommitPlan
import Frostsnap.Bitcoin.Disclosure
import Frostsnap.Bitcoin.GapStranded
import Frostsnap.Bitcoin.PsbtFaithful
import Frostsnap.Device.NoPanic
import Frostsnap.Device.NonceAgreement
import Frostsnap.Device.HeldShares
import Frostsnap.Device.ShareDecryption
import Frostsnap.Coordinator.SigningCompletes
import Frostsnap.Comms.DaisyChain
import Frostsnap.Comms.UsbBookkeeping
import Frostsnap.Comms.GenuineStore
import Frostsnap.Comms.MagicBytes
import Frostsnap.Firmware.OtaSafety
import Frostsnap.Firmware.SignedFirmware
import Frostsnap.Firmware.ValidatedBin
import Frostsnap.Firmware.RelayProgress
import Frostsnap.App.Deadlock
import Frostsnap.App.DeviceEvents
import Frostsnap.Comms.WireRoundTrip
import Frostsnap.Widgets.AddressDisplay
import Frostsnap.Widgets.BackupModel
import Frostsnap.Widgets.SignPrompt
import Frostsnap.Embedded.WriteAhead
import Frostsnap.Coordinator.SessionStart
import Frostsnap.Device.HonestSigning
