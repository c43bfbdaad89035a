import Frostsnap.Core.FrostLib

/-!
# A library to compute with

`plainLib` is a `FrostLib` that can be evaluated: points are numbers and the generator is one, a
polynomial is evaluated as one of numbers, a ciphertext carries what identifies its key, and the
hashes are sums with weights. Key generations and signing sessions go through their steps as with
the real library; what makes them secure is left out. It is what the concrete runs of the
coordinator are over.
-/

namespace Frostsnap

namespace PlainLib

/-- The hash of a list of points. -/
def hashPoints (points : List Point) : BitVec 256 :=
  points.foldl (fun h point => 31 * h + point.setWidth 256 + 1) 7

/-- The sum of polynomials. -/
def addPolynomials : List Point → List Point → List Point
  | a :: as, b :: bs => (a + b) :: addPolynomials as bs
  | [], bs => bs
  | as, [] => as

/-- Who has sent an input, and the sum of the inputs. -/
structure InputAggregator where
  threshold : ℕ
  nReceivers : ℕ
  parties : List Party
  polynomial : List Point

/-- What the certificates are for, and who has sent one. -/
structure Certifier where
  receiverKeys : List Point
  polynomial : List Point
  certificates : List (Point × ℕ)

/-- The parties of a signing session, and the sum of their nonces. -/
structure SignSession where
  parties : BTreeSet ShareIndex
  aggBinonce : Binonce

end PlainLib

open PlainLib

/-- A library to compute with. -/
def plainLib : FrostLib where
  Rng := ℕ
  SignTask := ℕ
  SignItem := ℕ
  SignTaskError := String
  SignSession := SignSession
  KeyPair := BitVec 256
  KeygenInput := List Point
  AggKeygenInput := List Point
  InputAggregator := InputAggregator
  Contributer := List Point
  Certifier := Certifier
  CertVrfProof := ℕ
  CertifiedKeygen := Certifier
  keyIdOfMasterAppkey := fun key => key.setWidth 256 + (key >>> 256).setWidth 256
  accessStructureIdOfAppPoly := hashPoints
  shareDecryptionHash := fun deviceId index polynomial =>
    hashPoints (deviceId :: index.setWidth 264 :: polynomial)
  bip32Hmac := fun chaincode point child =>
    (BitVec.ofNat 256 (child + 1), chaincode + hashPoints [point])
  tweakPoint := fun point tweak => point + tweak.setWidth 264
  isPoint := fun _ => true
  generator := 1
  evalPolynomial := fun polynomial index =>
    polynomial.foldr (fun point value => point + index.setWidth 264 * value) 0
  encryptRootkey := fun key point _ => point ++ key.setWidth 224
  decryptRootkey := fun key ciphertext =>
    if ciphertext.setWidth 224 = key.setWidth 224 then some (ciphertext.extractLsb' 224 264)
    else none
  sessionId := fun request =>
    hashPoints (request.aggNonces.map (·.setWidth 264)) + BitVec.ofNat 256 request.signTask +
      request.accessStructureId
  checkSignTask := fun signTask _ _ =>
    if signTask = 0 then .error "nothing to sign" else .ok (List.range signTask)
  deriveXonlyKey := fun item xpub =>
    { pointPolynomial := xpub.key.pointPolynomial.modifyHead (· + BitVec.ofNat 264 item) }
  randomizedCoordinatorSignSession := fun _ nonces _ rng =>
    { parties := .ofList nonces.keys compare
      aggBinonce := nonces.values.foldl (· + ·) (BitVec.ofNat 528 rng) }
  parties := SignSession.parties
  aggBinonce := SignSession.aggBinonce
  verifySignatureShare := fun _ _ index share => share == index
  combineSignatureShares := fun session shares =>
    session.aggBinonce.setWidth 512 + shares.foldl (fun sum share => sum + share.setWidth 512) 0
  verifyFinalSignature := fun _ _ _ => true
  newKeyPair := fun rng => BitVec.ofNat 256 rng
  publicKeyOfPair := fun keypair => keypair.setWidth 264
  newInputAggregator := fun threshold _ nReceivers =>
    { threshold := threshold, nReceivers := nReceivers, parties := [], polynomial := [] }
  genKeygenInput := fun threshold _ receiverKeys _ rng =>
    .ok (receiverKeys, (List.range threshold).map fun i => BitVec.ofNat 264 (rng + i))
  addInput := fun aggregator party input =>
    if party ∈ aggregator.parties then .error "input for that party was already added"
    else if input.length ≠ aggregator.threshold then .error "the polynomial has the wrong length"
    else
      .ok { aggregator with
        parties := party :: aggregator.parties
        polynomial := addPolynomials aggregator.polynomial input }
  aggregatorIsFinished := fun aggregator => aggregator.parties.length == aggregator.nReceivers + 1
  finishWithFingerprint := fun aggregator _ => some aggregator.polynomial
  verifyAggInput := fun receiverKeys polynomial _ =>
    some ({ receiverKeys := receiverKeys, polynomial := polynomial, certificates := [] }, 0)
  receiveCertificate := fun certifier publicKey cert =>
    if publicKey ∈ certifier.certificates.map Prod.fst then none
    else some { certifier with certificates := (publicKey, cert) :: certifier.certificates }
  certifierIsFinished := fun certifier =>
    certifier.certificates.length == certifier.receiverKeys.length + 1
  certifierFinish := some
  certificate := Certifier.certificates
  sessionHash := fun certifier => hashPoints certifier.polynomial
  sharedKeyOfKeygen := fun certifier => { pointPolynomial := certifier.polynomial }
  nReceivers := fun certifier => certifier.receiverKeys.length
  receiverKeys := fun certifier =>
    (certifier.receiverKeys.zipIdx 1).map fun (key, i) => (BitVec.ofNat 256 i, key)
  defaultFingerprint := 0
  findValidSubset := fun shares _ threshold =>
    match shares, threshold with
    | [share], some 1 => some { pointPolynomial := [share.image] }
    | _, _ => none

end Frostsnap
