import TurboOctopus.Parlia.Turn
import TurboOctopus.Parlia.Validators
import TurboOctopus.Core.Receipts
import TurboOctopus.Parlia.Agreement
import TurboOctopus.Eth.Delivery
import TurboOctopus.Eth.Request
import TurboOctopus.NodeManager.Proximity
import TurboOctopus.NodeManager.Crawler
import TurboOctopus.NodeManager.Enodes
import TurboOctopus.NodeManager.Registration
import TurboOctopus.NodeManager.Fanout
import TurboOctopus.P2p.Closest
import TurboOctopus.P2p.DialLocks
import TurboOctopus.P2p.Server
import TurboOctopus.Eth.Dispatched
import TurboOctopus.Core.CanonicalChain
import TurboOctopus.Trie.DeriveSha
import TurboOctopus.Trie.Proof
import TurboOctopus.State.Sharing
import TurboOctopus.Types.PriceAndNonce
import TurboOctopus.Rawdb.ChainIterator
import TurboOctopus.Core.BlockReorg
import TurboOctopus.Core.Stall
import TurboOctopus.Core.ForkFilter
import TurboOctopus.Eth.BlockFetcher
import TurboOctopus.P2p.Accounting
import TurboOctopus.Eth.TxAnnounces
import TurboOctopus.Event.Delivered
import TurboOctopus.NodeManager.SendTx
import TurboOctopus.Core.AddTxs
import TurboOctopus.P2p.StaticPool
import TurboOctopus.Core.HeaderQuery
import TurboOctopus.Core.DiffLayers
