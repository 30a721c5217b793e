import BeaconReplay.Chain.Merkle
import BeaconReplay.Client.Features
import BeaconReplay.Main
import BeaconReplay.Proofs.Chain.Schedule
import BeaconReplay.Proofs.Chain.Outcome
import BeaconReplay.Proofs.Chain.Accumulation
import BeaconReplay.Proofs.Chain.Refusal
import BeaconReplay.Proofs.Merkle.Layers
import BeaconReplay.Proofs.Merkle.Tree
import BeaconReplay.Proofs.Replay.Report
import BeaconReplay.Proofs.Replay.Failures
import BeaconReplay.Proofs.Replay.Verdict
import BeaconReplay.Proofs.Replay.Accounting
import BeaconReplay.Proofs.Text.Numerals
import BeaconReplay.Proofs.Yaml.Page
import BeaconReplay.Proofs.Yaml.Scalars
import BeaconReplay.Proofs.Yaml.Scan
import BeaconReplay.Proofs.Yaml.Tokens
import BeaconReplay.Proofs.Yaml.Documents
import BeaconReplay.Proofs.Yaml.Printing
import BeaconReplay.Proofs.Yaml.Decoding
import BeaconReplay.Proofs.Codec.Records
import BeaconReplay.Proofs.Json.Faithful
import BeaconReplay.Proofs.Replay.Differences
import BeaconReplay.Proofs.Replay.Printed
import BeaconReplay.Proofs.Replay.Blame
import BeaconReplay.Proofs.Merkle.Binding
import BeaconReplay.Proofs.Chain.Effect
import BeaconReplay.Proofs.Chain.Precedence
import BeaconReplay.Proofs.Chain.Upgrade
import BeaconReplay.Proofs.Chain.Repetition
import BeaconReplay.Proofs.Chain.Mixes
import BeaconReplay.Proofs.Json.Decoding
import BeaconReplay.Proofs.Client.Answers
import BeaconReplay.Proofs.Wire.Fields
import BeaconReplay.Proofs.Wire.Messages
import BeaconReplay.Proofs.Client.Agreement
import BeaconReplay.Proofs.Chain.Order
import BeaconReplay.Proofs.Chain.Interleaving
import BeaconReplay.Proofs.Chain.Epochs
import BeaconReplay.Proofs.Chain.Slashings
import BeaconReplay.Proofs.Chain.Votes
import BeaconReplay.Proofs.Replay.Isolation
import BeaconReplay.Proofs.Replay.Patch
import BeaconReplay.Proofs.Json.RoundTrip
import BeaconReplay.Proofs.Replay.Judgement
import BeaconReplay.Proofs.Replay.Expectation
import BeaconReplay.Proofs.Client.Backends
import BeaconReplay.Proofs.Replay.Fields
import BeaconReplay.Proofs.Chain.Roots
import BeaconReplay.Proofs.Client.Versions
import BeaconReplay.Proofs.Client.Pinning
import BeaconReplay.Proofs.Text.Decimals
import BeaconReplay.Proofs.Json.States
import BeaconReplay.Proofs.Client.Payloads
import BeaconReplay.Proofs.Client.Requests
