import RgbStd.Lib.Runs
import RgbStd.Lib.Propagate
import RgbStd.Lib.Decode
import RgbStd.Lib.Encode
import RgbStd.Lib.Extremes
import RgbStd.Core.Types
import RgbStd.Core.Reference
import RgbStd.Contract.Sync
import RgbStd.Contract.Replace
import RgbStd.Contract.Anchors
import RgbStd.Consign.Agree
import RgbStd.Pile.Grow
import RgbStd.Contract.Atomic
import RgbStd.Contracts.Resolve
import RgbStd.Popls.Balance
import RgbStd.Popls.Loss
import RgbStd.Popls.Atomic
import RgbStd.Popls.Tokens
import RgbStd.Contract.Export
import RgbStd.Contract.Confirm
import RgbStd.Contract.Retry
import RgbStd.Contract.Foreign
import RgbStd.Stockpile.Index
import RgbStd.Stockpile.Leftover
import RgbStd.Contracts.Managed
import RgbStd.Contracts.Network
import RgbStd.Stockpile.Serving
import RgbStd.Stockpile.Refine
import RgbStd.Pile.Relations
import RgbStd.Contract.LastStatus
import RgbStd.Popls.Issue
import RgbStd.Popls.Seals
import RgbStd.Popls.Payment
import RgbStd.Popls.Messages
import RgbStd.Popls.Closes
import RgbStd.Popls.Balanced
import RgbStd.Popls.Panics
import RgbStd.Lib.Numerals
import RgbStd.Lib.Base64
import RgbStd.Core.Texts
import RgbStd.Pile.StatusBytes
import RgbStd.Contract.Best
import RgbStd.Contract.Trust
import RgbStd.Popls.Resolver
import RgbStd.Consign.Count
import RgbStd.Invoice.WitnessOut
import RgbStd.Stockpile.Reload
import RgbStd.Contracts.Ref
import RgbStd.Contracts.Find
import RgbStd.Contract.Reopen
import RgbStd.Contracts.Evict
import RgbStd.Stockpile.Backing
import RgbStd.Stockpile.Restart
import RgbStd.Contract.Transfer
import RgbStd.Popls.Invoices
import RgbStd.Popls.Receive
import RgbStd.Popls.Supply
import RgbStd.Lib.Gossip
import RgbStd.Contract.Exchange
import RgbStd.Contracts.Settle
import RgbStd.Popls.Anchored
import RgbStd.Consign.Dump
import RgbStd.Popls.Bundled
import RgbStd.Invoice.Query
