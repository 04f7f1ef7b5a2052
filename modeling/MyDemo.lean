import MyDemo.Bluetooth.DecoderTheorems
import MyDemo.Bluetooth.ServiceTheorems
import MyDemo.Im.MessageTheorems
import MyDemo.Im.EmojiTheorems
import MyDemo.Files.ScanTheorems
import MyDemo.Files.TraverseTheorems
import MyDemo.Files.DirTheorems
import MyDemo.Files.ProgressTheorems
import MyDemo.Files.RowTheorems
import MyDemo.Files.BrowseTheorems
import MyDemo.Files.CacheTheorems
import MyDemo.Files.SizeTheorems
import MyDemo.Loadmore.LoadmoreTheorems
import MyDemo.Loadmore.ListenerTheorems
import MyDemo.Loadmore.FooterTheorems
import MyDemo.Loadmore.WrapperTheorems
import MyDemo.Show.RowTheorems
import MyDemo.Show.PictureTheorems
import MyDemo.Ijk.TimerTheorems
import MyDemo.Ijk.SeekTheorems
import MyDemo.Javacv.FragmentTheorems
import MyDemo.Javacv.FrameTheorems
import MyDemo.Javacv.ThreadTheorems
import MyDemo.Banner.PageTheorems
import MyDemo.Banner.AutoPlayTheorems
import MyDemo.Banner.PlayTheorems
import MyDemo.Ripple.NumberTheorems
import MyDemo.Ripple.FadeTheorems
import MyDemo.Nested.ScrollTheorems
import MyDemo.Nested.RangeTheorems
import MyDemo.Wave.HistoryTheorems
import MyDemo.Recyclerview.MirrorTheorems
import MyDemo.Editimg.PlacementTheorems
import MyDemo.Editimg.GraffitiTheorems
import MyDemo.Paging.LoadTheorems
import MyDemo.Sort.QuickSortTheorems
import MyDemo.Sort.MergeSortTheorems
import MyDemo.Sort.BubbleSortTheorems
import MyDemo.Sort.SelectSortTheorems
import MyDemo.Sort.InsertSortTheorems
import MyDemo.Sort.IntMergeSortTheorems
import MyDemo.Sort.HeapTheorems
import MyDemo.Ijkmedia.TreeTheorems
import MyDemo.Ijkmedia.IoCacheTheorems
import MyDemo.Ijkmedia.IoManagerTheorems
import MyDemo.Ijkmedia.MessageQueueTheorems
import MyDemo.Ijkmedia.PacketQueueTheorems
import MyDemo.Ijkmedia.DecoderTheorems
import MyDemo.Ijkmedia.FrameQueueTheorems
import MyDemo.Ijkmedia.ThreadPoolTheorems
import MyDemo.Ijkmedia.AsyncReturnTheorems
import MyDemo.Ijkmedia.FifoTheorems
import MyDemo.Ijkmedia.PlayerTheorems
