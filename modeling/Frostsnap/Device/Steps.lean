import Frostsnap.Device.Signing

/-!
# Runs of a device

A run is a list of what a device did: messages that it handled and things that its user did, each
with what the device sent for it. The user acts on phases that the device has shown before. A panic
ends a run.
-/

namespace Frostsnap

namespace Device

attribute [local instance] Build.release

variable {L : FrostLib} (D : DeviceLib L)

/-- What happens to a device. -/
inductive Op where
  | recvCoordinatorMessage (message : CoordinatorToDeviceMessage L) (rng : L.Rng)
      (seeds : ℕ → SeedMaterial)
  | keygenAck (phase : KeyGenPhase3) (rng : L.Rng)
  | signAck (phase : SignPhase1 D)
  | backupEntered (phase : EnterBackupPhase) (shareBackup : D.Backup)
  | finishConsolidation (phase : ConsolidatePhase) (rng : L.Rng)
  | clearTmpData
  /-- the staged mutations are written to flash -/
  | takeStagedMutations

/-- Something that happened, with what was sent for it unless it was refused. -/
structure Entry where
  op : Op D
  sends : Option (List (DeviceSend D))

variable {D} {S : Type} [NonceStreamSlot S SeedMaterial SignatureShare]

/-- What is sent, if the call did not fail. -/
def sent {ε : Type} : Except ε (List (DeviceSend D)) → Option (List (DeviceSend D))
  | .ok sends => some sends
  | .error _ => none

namespace Signer

/-- What a device does. -/
def step (symmKeygen : DeviceSecretDerivation) (s : Signer D S) :
    Op D → Exec (Option (List (DeviceSend D)) × Signer D S)
  | .recvCoordinatorMessage message rng seeds => do
      let (r, s) ← s.recvCoordinatorMessage message rng seeds
      return (sent r, s)
  | .keygenAck phase rng => do
      let (r, s) ← s.keygenAck phase symmKeygen rng
      return (sent (r.map fun ack => [.toCoordinator ack]), s)
  | .signAck phase => do
      let (r, s) ← s.signAck phase symmKeygen
      return (sent r, s)
  | .backupEntered phase shareBackup =>
      let (sends, s) := s.tellCoordinatorAboutBackupLoadResult phase shareBackup
      return (some sends, s)
  | .finishConsolidation phase rng =>
      let (sends, s) := s.finishConsolidation symmKeygen phase rng
      return (some sends, s)
  | .clearTmpData =>
      return (some [],
        { s with
          keygen := KeygenState.clearTmpData D
          restoration.tmpLoadedBackups := ∅ })
  | .takeStagedMutations => return (some [], { s with mutations := [] })

end Signer

/-- A device has shown a message to its user. -/
def Shown (trace : List (Entry D)) (m : DeviceToUserMessage D) : Prop :=
  ∃ entry ∈ trace, ∃ sends, entry.sends = some sends ∧ .toUser m ∈ sends

/-- The user only acts on what was shown. -/
def Op.Allowed (trace : List (Entry D)) : Op D → Prop
  | .keygenAck phase _ => Shown trace (.checkKeyGen phase)
  | .signAck phase => Shown trace (.signatureRequest phase)
  | .backupEntered phase _ => Shown trace (.restoration (.enterBackup phase))
  | .finishConsolidation phase _ => Shown trace (.restoration (.consolidateBackup phase))
  | _ => True

/-- A device that has been started: its slots are as they are found in flash, and nothing is under
way. -/
structure Started (s : Signer D S) : Prop where
  ordinary : s.nonceSlots.Ordinary
  keygen : s.keygen = KeygenState.clearTmpData D
  tmpLoadedBackups : s.restoration.tmpLoadedBackups = ∅

/-- The states that a device comes to, with what has happened. -/
inductive Reach (symmKeygen : DeviceSecretDerivation) (s₀ : Signer D S) :
    Signer D S → List (Entry D) → Prop where
  | start : Reach symmKeygen s₀ s₀ []
  | step {s s' : Signer D S} {trace : List (Entry D)} {op : Op D}
      {sends : Option (List (DeviceSend D))} (h : Reach symmKeygen s₀ s trace)
      (hop : op.Allowed trace) (hstep : s.step symmKeygen op = .ret (sends, s')) :
      Reach symmKeygen s₀ s' (trace ++ [{ op := op, sends := sends }])

end Device

end Frostsnap
